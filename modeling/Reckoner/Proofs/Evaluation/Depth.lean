import Reckoner.Proofs.Evaluation.Discipline

/-!
# A finished evaluation does not depend on the depth

An evaluation that is nested too deeply is cut off.  `Approximates x y` says that `x` does what `y`
does unless it is cut off, and there is one rule for each way in which actions are composed.  A
layer of evaluation only reaches the depth through what it evaluates below, so evaluations that
approximate each other below do so above, and a deeper evaluation gives every result of a less deep
one: `evaluator_approximates`.

So there is one result, if any, that an activity comes to at all depths that are enough for it:
`Activity.Ends`.
-/

namespace Reckoner

namespace Action

variable {α β : Type} {x y : Action α}

/-- From every state an action is cut off, or does what another one does. -/
def Approximates (x y : Action α) : Prop :=
  ∀ i, (x.runFrom i).1 = .error .exhausted ∨ x.runFrom i = y.runFrom i

theorem Approximates.refl (x : Action α) : x.Approximates x := fun _ => .inr rfl

theorem Approximates.bind {f g : α → Action β} (hx : x.Approximates y)
    (hf : ∀ a, (f a).Approximates (g a)) : (x >>= f).Approximates (y >>= g) := by
  intro i
  rcases runFrom_cases x i with ⟨a, j, hrun⟩ | ⟨failure, j, hrun⟩
  · rcases hx i with hcut | hsame
    · rw [hrun] at hcut
      cases hcut
    · rw [hrun] at hsame
      rw [runFrom_bind_ok hrun, runFrom_bind_ok hsame.symm]
      exact hf a j
  · rw [runFrom_bind_error hrun]
    rcases hx i with hcut | hsame
    · rw [hrun] at hcut
      exact .inl (congrArg Except.error (Except.error.inj hcut))
    · rw [hrun] at hsame
      exact .inr (runFrom_bind_error hsame.symm).symm

theorem Approximates.bind_left (hx : x.Approximates y) (f : α → Action β) :
    (x >>= f).Approximates (y >>= f) :=
  hx.bind fun a => .refl (f a)

theorem approximates_bind (x : Action α) {f g : α → Action β}
    (hf : ∀ a, (f a).Approximates (g a)) : (x >>= f).Approximates (x >>= g) :=
  (Approximates.refl x).bind hf

theorem Approximates.located (hx : x.Approximates y) (position : Position) :
    (located position x).Approximates (located position y) := by
  intro i
  rw [runFrom_located, runFrom_located]
  rcases hx i with hcut | hsame
  · rw [hcut]
    exact .inl rfl
  · rw [hsame]
    exact .inr rfl

theorem Approximates.recorded (hx : x.Approximates y) (name : Option String) (category : String) :
    (recorded name category x).Approximates (recorded name category y) := by
  intro i
  rw [runFrom_recorded, runFrom_recorded]
  rcases hx (i.beginning name category) with hcut | hsame
  · exact .inl hcut
  · rw [hsame]
    exact .inr rfl

end Action

open Reckoner.Action

/-- An evaluation does what another one does unless it is cut off. -/
structure Evaluator.Approximates (below above : Evaluator) : Prop where
  eval (expression : Datum) (scope : ScopeId) :
    (below.eval expression scope).Approximates (above.eval expression scope)
  apply (function : Datum) (arguments : List Datum) :
    (below.apply function arguments).Approximates (above.apply function arguments)

namespace Evaluation

variable {below above : Evaluator} (h : below.Approximates above)

include h

/-! ## Files -/

theorem approximates_evalEach (scope : ScopeId) (last : Datum) (expressions : List Datum) :
    (evalEach below scope last expressions).Approximates
      (evalEach above scope last expressions) := by
  induction expressions generalizing last with
  | nil => exact .refl _
  | cons expression rest ih =>
    refine approximates_bind get fun i => approximates_bind (ofExcept _ _) fun _ => ?_
    exact (h.eval expression scope).bind fun value => ih value

theorem approximates_evalText (source text : String) (scope : ScopeId) :
    (evalText below source text scope).Approximates (evalText above source text scope) :=
  approximates_bind _ fun _ => (approximates_evalEach h scope .nil _).bind_left _

theorem approximates_loadScript (folder file : String) :
    (loadScript below folder file).Approximates (loadScript above folder file) :=
  approximates_bind _ fun content => approximates_bind _ fun scope =>
    approximates_evalText h file content scope

theorem approximates_loadWatched (watch : Watch) :
    (loadWatched below watch).Approximates (loadWatched above watch) := by
  unfold loadWatched
  cases watch.handler with
  | none => exact (approximates_loadScript h _ _).bind_left _
  | some handler => exact approximates_bind _ fun content => (h.apply handler _).bind_left _

theorem approximates_watchFile (folder : String) (arguments : List Datum) :
    (watchFile below folder arguments).Approximates (watchFile above folder arguments) :=
  approximates_bind _ fun _ => (approximates_loadWatched h _).bind_left _

/-! ## Calls -/

theorem approximates_runNative (f : Native) (arguments : List Datum) :
    (runNative below f arguments).Approximates (runNative above f arguments) := by
  cases f with
  | builtin b => exact .refl _
  | importFile owner folder =>
    exact approximates_bind _ fun file => approximates_loadScript h folder file
  | watchFile owner folder => exact approximates_watchFile h folder arguments
  | echo => exact .refl _
  | labelled name => exact .refl _

theorem approximates_applyStep (function : Datum) (arguments : List Datum) :
    (applyStep below function arguments).Approximates (applyStep above function arguments) := by
  cases function
  case closure parameters body scope =>
    exact approximates_bind _ fun inner => h.eval body inner
  case native f =>
    rw [applyStep, applyStep, applyNative_eq, applyNative_eq]
    exact approximates_bind get fun _ => (approximates_runNative h f arguments).recorded _ _
  all_goals exact .refl _

/-! ## Special forms -/

theorem approximates_evalBranches (scope : ScopeId) (items : List Datum) :
    (evalBranches below scope items).Approximates (evalBranches above scope items) := by
  induction items using evalBranches.induct with
  | case1 condition branch rest ih =>
    refine (h.eval condition scope).bind fun value => ?_
    split
    · exact h.eval branch scope
    · exact ih
  | case2 last => exact h.eval last scope
  | case3 => exact .refl _

theorem approximates_evalSequence (scope : ScopeId) (items : List Datum) :
    (evalSequence below scope items).Approximates (evalSequence above scope items) := by
  induction items with
  | nil => exact .refl _
  | cons expression rest ih =>
    cases rest with
    | nil => exact h.eval expression scope
    | cons next rest => exact (h.eval expression scope).bind fun _ => ih

theorem approximates_evalDefinition (keyword : String) (scope : ScopeId) (items : List Datum) :
    (evalDefinition below keyword scope items).Approximates
      (evalDefinition above keyword scope items) := by
  unfold evalDefinition
  split
  · exact (h.eval _ scope).bind_left _
  · exact .refl _
  · exact .refl _

theorem approximates_evalTimed (scope : ScopeId) (items : List Datum) :
    (evalTimed below scope items).Approximates (evalTimed above scope items) := by
  cases items with
  | nil => exact .refl _
  | cons expression rest =>
    rw [evalTimed_cons, evalTimed_cons]
    exact approximates_bind _ fun label => ((h.eval expression scope).recorded _ _).bind_left _

theorem approximates_evalForm (scope : ScopeId) (name : String) (keyword : Keyword)
    (items : List Datum) :
    (evalForm below scope name keyword items).Approximates
      (evalForm above scope name keyword items) := by
  cases keyword with
  | quote => exact .refl _
  | time => exact approximates_evalTimed h scope items
  | branch => exact approximates_evalBranches h scope items
  | definition => exact approximates_evalDefinition h name scope items
  | lambda => exact .refl _
  | sequence => exact approximates_evalSequence h scope items

/-! ## One layer, and all of them -/

theorem approximates_evalArguments (scope : ScopeId) (items : List Datum) :
    (evalArguments below scope items).Approximates (evalArguments above scope items) := by
  induction items with
  | nil => exact .refl _
  | cons expression rest ih => exact (h.eval expression scope).bind fun _ => ih.bind_left _

theorem approximates_evalCall (scope : ScopeId) (head : Datum) (arguments : List Datum) :
    (evalCall below scope head arguments).Approximates (evalCall above scope head arguments) := by
  rw [evalCall_eq_applyStep, evalCall_eq_applyStep]
  exact (h.eval head scope).bind fun function =>
    (approximates_evalArguments h scope arguments).bind fun values =>
      approximates_applyStep h function values

theorem approximates_evalList (scope : ScopeId) (items : List Datum) :
    (evalList below scope items).Approximates (evalList above scope items) := by
  unfold evalList
  split
  · exact .refl _
  · split
    · exact approximates_evalForm h scope _ _ _
    · exact approximates_evalCall h scope _ _
  · exact approximates_evalCall h scope _ _

theorem approximates_evalStep (expression : Datum) (scope : ScopeId) :
    (evalStep below expression scope).Approximates (evalStep above expression scope) := by
  cases expression
  case list position items =>
    cases position with
    | none => exact approximates_evalList h scope items
    | some position => exact (approximates_evalList h scope items).located position
  all_goals exact .refl _

end Evaluation

open Reckoner.Evaluation

/-- A deeper evaluation gives every result of a less deep one. -/
theorem evaluator_approximates {depth deeper : ℕ} (h : depth ≤ deeper) :
    (evaluator depth).Approximates (evaluator deeper) := by
  induction depth generalizing deeper with
  | zero => exact ⟨fun _ _ _ => .inl rfl, fun _ _ _ => .inl rfl⟩
  | succ depth ih =>
    obtain ⟨level, rfl⟩ := Nat.exists_eq_add_of_le' h
    have hbelow := ih (Nat.le_add_left depth level)
    exact ⟨approximates_evalStep hbelow, approximates_applyStep hbelow⟩

namespace Evaluation.Activity

variable {a : Activity} {i : Interpreter} {result other : Except Failure Datum × Interpreter}

theorem approximates_perform {below above : Evaluator} (h : below.Approximates above)
    (a : Activity) : (a.perform below).Approximates (a.perform above) := by
  cases a with
  | eval expression scope => exact h.eval expression scope
  | apply function arguments => exact h.apply function arguments
  | call f arguments => exact approximates_runNative h f arguments

/-- What an activity comes to at some depth without being cut off: its outcome and the state after
it. -/
def Ends (a : Activity) (i : Interpreter) (result : Except Failure Datum × Interpreter) : Prop :=
  result.1 ≠ .error .exhausted ∧ ∃ depth, (a.perform (evaluator depth)).runFrom i = result

/-- Once an activity has ended at some depth, it ends alike at every greater one. -/
theorem Ends.deeper (h : a.Ends i result) :
    ∃ depth, ∀ deeper, depth ≤ deeper → (a.perform (evaluator deeper)).runFrom i = result := by
  obtain ⟨hends, depth, hrun⟩ := h
  refine ⟨depth, fun deeper hdeeper => ?_⟩
  rcases approximates_perform (evaluator_approximates hdeeper) a i with hcut | hsame
  · rw [hrun] at hcut
    exact absurd hcut hends
  · rw [← hsame, hrun]

/-- An activity comes to one result at most. -/
theorem Ends.unique (h : a.Ends i result) (h' : a.Ends i other) : result = other := by
  obtain ⟨depth, hrun⟩ := h.deeper
  obtain ⟨depth', hrun'⟩ := h'.deeper
  rw [← hrun _ (Nat.le_max_left depth depth'), ← hrun' _ (Nat.le_max_right depth depth')]

end Evaluation.Activity

end Reckoner
