import Reckoner.Proofs.Evaluation.Discipline

/-!
# Programs do not see whether they are traced

Two states match when programs cannot tell them apart: they may differ in the traces, in which trace
is open and in whether durations are printed, and in lines about durations in the output.  Running
the same action from two states that match is a discipline, so an evaluation that does not switch
the tracing gives the same value or the same failure from both, and ends in states that match.

The two runs are not in lockstep: one may record and print where the other does not.  What makes
them comparable is that recording a call keeps its outcome.
-/

namespace Reckoner

/-- Two texts are the same up to lines that say how long something took. -/
inductive SameUpToDurations : String → String → Prop where
  | refl (text : String) : SameUpToDurations text text
  | append {a b : String} (h : SameUpToDurations a b) (text : String) :
      SameUpToDurations (a ++ text) (b ++ text)
  | left {a b : String} (h : SameUpToDurations a b) (label : String) :
      SameUpToDurations (a ++ ("trace DURATION " ++ label ++ "\n")) b
  | right {a b : String} (h : SameUpToDurations a b) (label : String) :
      SameUpToDurations a (b ++ ("trace DURATION " ++ label ++ "\n"))

/-- Two states that programs cannot tell apart.  If `exact` holds, durations are printed in both or
in none. -/
structure Interpreter.Matches (exact : Prop) (i j : Interpreter) : Prop where
  bare : i.bare = j.bare
  output : SameUpToDurations i.output j.output
  exactly : exact → i.printsDurations = j.printsDurations ∧ i.output = j.output

namespace Interpreter

variable {exact : Prop} {i j : Interpreter}

/-- Only the part that is not seen decides whether two states match. -/
theorem Matches.retraced (h : i.Matches exact j) (k : Interpreter) :
    (k.retraced i).Matches exact (k.retraced j) :=
  ⟨rfl, h.output, h.exactly⟩

theorem Matches.traces (h : i.Matches exact j) (logs others : Array TraceLog) :
    ({ i with traces := logs } : Interpreter).Matches exact { j with traces := others } :=
  ⟨h.bare, h.output, h.exactly⟩

theorem exists_beginning (i : Interpreter) (name : Option String) (category : String) :
    ∃ logs, i.beginning name category = { i with traces := logs } := by
  unfold beginning
  split
  · exact ⟨_, rfl⟩
  · exact ⟨i.traces, rfl⟩

theorem exists_ending (i : Interpreter) (trace : Option ℕ) (name : Option String)
    (category : String) : ∃ logs, i.ending trace name category = { i with traces := logs } := by
  unfold ending
  split
  · exact ⟨_, rfl⟩
  · exact ⟨i.traces, rfl⟩

theorem Matches.print (h : i.Matches exact j) (text : String) :
    ({ i with output := i.output ++ text } : Interpreter).Matches exact
      { j with output := j.output ++ text } := by
  refine ⟨h.bare, h.output.append text, fun hexact => ⟨(h.exactly hexact).1, ?_⟩⟩
  exact congrArg (· ++ text) (h.exactly hexact).2

end Interpreter

namespace Action

variable {exact : Prop} {i j : Interpreter}

/-- Durations are printed in one of the two runs, in both or in none. -/
theorem matches_printDuration (h : i.Matches exact j) (label : String) :
    ((printDuration label).runFrom i).2.Matches exact ((printDuration label).runFrom j).2 := by
  have hexact (hi : i.printsDurations = !j.printsDurations) : ¬ exact := fun hexact => by
    rw [(h.exactly hexact).1] at hi
    exact absurd hi.symm (Bool.not_ne_self _)
  rw [runFrom_printDuration, runFrom_printDuration]
  by_cases hi : i.printsDurations = true
  · by_cases hj : j.printsDurations = true
    · rw [if_pos hi, if_pos hj]
      exact h.print _
    · have hnot := hexact (by rw [hi, Bool.eq_false_of_not_eq_true hj]; rfl)
      rw [if_pos hi, if_neg hj]
      exact ⟨h.bare, h.output.left label, fun he => absurd he hnot⟩
  · by_cases hj : j.printsDurations = true
    · have hnot := hexact (by rw [hj, Bool.eq_false_of_not_eq_true hi]; rfl)
      rw [if_neg hi, if_pos hj]
      exact ⟨h.bare, h.output.right label, fun he => absurd he hnot⟩
    · rw [if_neg hi, if_neg hj]
      exact h

end Action

open Reckoner.Action

/-- That runs from states that match have the same outcome and end in states that match. -/
def Discipline.unobserved (exact : Prop) : Discipline where
  Holds x i := ∀ j, i.Matches exact j →
    (x.runFrom i).1 = (x.runFrom j).1 ∧ (x.runFrom i).2.Matches exact (x.runFrom j).2
  holds_pure _ _ _ h := ⟨rfl, h⟩
  holds_throw _ _ _ h := ⟨rfl, h⟩
  holds_bind {_ _ x f i} hx hf j h := by
    obtain ⟨houtcome, hstate⟩ := hx j h
    rcases runFrom_cases x i with ⟨a, i', hi⟩ | ⟨failure, i', hi⟩
    · rcases hj : x.runFrom j with ⟨outcome, j'⟩
      rw [hi, hj] at houtcome hstate
      cases houtcome
      rw [runFrom_bind_ok hi, runFrom_bind_ok hj]
      exact hf a i' hi j' hstate
    · rcases hj : x.runFrom j with ⟨outcome, j'⟩
      rw [hi, hj] at houtcome hstate
      cases houtcome
      rw [runFrom_bind_error hi, runFrom_bind_error hj]
      exact ⟨rfl, hstate⟩
  holds_located position hx j h := by
    obtain ⟨houtcome, hstate⟩ := hx j h
    rw [runFrom_located, runFrom_located, houtcome]
    exact ⟨rfl, hstate⟩
  holds_get_bind {_ f i} hf hx j h := by
    have hsame : f j = f i := by rw [← Interpreter.retraced_eq h.bare, hf]
    rw [runFrom_get_bind, runFrom_get_bind, hsame]
    exact hx j h
  holds_modify {update} i hupdate j h := by
    have hi : update i = (update i).retraced i := hupdate i i
    have hj : update j = (update i).retraced j := by
      rw [← hupdate, Interpreter.retraced_eq h.bare]
    refine ⟨rfl, ?_⟩
    change (update i).Matches exact (update j)
    rw [hi, hj]
    exact h.retraced _
  holds_print text _ _ h := ⟨rfl, h.print text⟩
  holds_printDuration label i j h := by
    refine ⟨?_, matches_printDuration h label⟩
    rw [runFrom_printDuration, runFrom_printDuration]
  holds_switch on i j h := by
    refine ⟨rfl, ?_, h.output, fun hexact => ⟨rfl, (h.exactly hexact).2⟩⟩
    exact congrArg (fun k : Interpreter =>
      { k with settings := { k.settings with tracePrint := on } }) h.bare
  holds_recorded {_ x i} name category hx j h := by
    obtain ⟨logs, hi⟩ := i.exists_beginning name category
    obtain ⟨others, hj⟩ := j.exists_beginning name category
    have hinner := hx (j.beginning name category) (by rw [hi, hj]; exact h.traces logs others)
    rw [runFrom_recorded, runFrom_recorded]
    refine ⟨hinner.1, ?_⟩
    obtain ⟨logs, hi⟩ :=
      (x.runFrom (i.beginning name category)).2.exists_ending i.tracing name category
    obtain ⟨others, hj⟩ :=
      (x.runFrom (j.beginning name category)).2.exists_ending j.tracing name category
    dsimp only
    rw [hi, hj]
    exact hinner.2.traces logs others

namespace Evaluation

/-- Tracing does not influence programs.  From two states that differ at most in the traces, in
which trace is open and in whether durations are printed, an evaluation that does not switch the
tracing gives the same value or the same failure, and the same scopes, settings and files.  What is
printed is the same up to the lines about durations, and with these if they are printed in both or
in none. -/
theorem tracing_unobserved {i j : Interpreter} (hbare : i.bare = j.bare)
    (houtput : i.output = j.output) {depth : ℕ} {x : Datum} {scope : ScopeId}
    (hleaves : LeavesTracing depth (.eval x scope) i) :
    let run := ((evaluator depth).eval x scope).runFrom i
    let other := ((evaluator depth).eval x scope).runFrom j
    run.1 = other.1 ∧ run.2.bare = other.2.bare ∧
      SameUpToDurations run.2.output other.2.output ∧
      (i.printsDurations = j.printsDurations →
        run.2.printsDurations = other.2.printsDurations ∧ run.2.output = other.2.output) := by
  have hmatches : i.Matches (i.printsDurations = j.printsDurations) j :=
    ⟨hbare, houtput ▸ .refl _, fun hprints => ⟨hprints, houtput⟩⟩
  obtain ⟨houtcome, hstate⟩ := Discipline.holds_of_leavesTracing
    (D := .unobserved (i.printsDurations = j.printsDurations)) hleaves j hmatches
  exact ⟨houtcome, hstate.bare, hstate.output, hstate.exactly⟩

/-- With a trace and durations, and without both. -/
theorem tracing_unobserved_time :
    let x := Datum.ofList [.symbol "time", .ofList [.symbol "not", .symbol "true"]]
    let i := { Interpreter.initial.openTrace none with printsDurations := true }
    let run := ((evaluator 3).eval x globalScope).runFrom i
    let other := ((evaluator 3).eval x globalScope).runFrom .initial
    (run.1 = other.1 ∧ run.2.bare = other.2.bare ∧
      SameUpToDurations run.2.output other.2.output ∧
      (i.printsDurations = Interpreter.initial.printsDurations →
        run.2.printsDurations = other.2.printsDurations ∧ run.2.output = other.2.output)) ∧
      run.1 = .ok (.bool false) ∧ run.2.output = "trace DURATION (not true)\n" ∧
      other.2.output = "" := by
  intro x i run other
  have hcall : LeavesTracing 2 (.eval (.ofList [.symbol "not", .symbol "true"]) globalScope)
      (i.beginning (some (i.display (.ofList [.symbol "not", .symbol "true"]))) "scm") := by
    refine leavesTracing_call (b := .not) rfl rfl (by decide) ?_ none
    intro y hy
    rw [List.mem_singleton.1 hy]
    exact fun _ _ => Datum.noConfusion
  have hbare : i.bare = Interpreter.initial.bare := rfl
  exact ⟨tracing_unobserved hbare rfl (leavesTracing_time hcall none []), rfl, rfl, rfl⟩

end Evaluation

end Reckoner
