import Reckoner.Proofs.Evaluation.Activity
import Reckoner.Proofs.Evaluation.Evaluator
import Reckoner.Proofs.Reader

/-!
# Where failures are located

A fault comes up in one activity, while the activities that led to it wait.  `Raises` follows the
chain inward to the activity that fails although nothing that it has started does, and collects the
lists of source texts that are entered on the way, the latest first.

The position of a failure is the first of them.  `Raises.fails` and `exists_raises` say so in both
directions, for all activities: calls, restarts in the body of a function and imported files are
links of the chain like others.  `read_failure_located` is what follows for an expression that was
read from a text.
-/

namespace Reckoner.Evaluation

open Reckoner.Action

/-- An activity fails with a fault that comes up while lists at some positions are being evaluated,
the latest first. -/
inductive Raises : ℕ → Activity → Interpreter → Fault → List Position → Prop where
  /-- Nothing that the activity has started fails. -/
  | itself {depth : ℕ} {t : Activity} {i : Interpreter} {fault : Fault} {position : Option Position}
      (hfails : (t.perform (evaluator depth)).FailsWith i (.raised fault position))
      (hown : ∀ level s k failure, Starts depth t i level s k →
        ¬ (s.perform (evaluator level)).FailsWith k failure) :
      Raises depth t i fault t.position?.toList
  | within {depth level : ℕ} {t s : Activity} {i k : Interpreter} {fault : Fault}
      {positions : List Position} (hstarts : Starts depth t i level s k)
      (h : Raises level s k fault positions) :
      Raises depth t i fault (positions ++ t.position?.toList)

variable {depth : ℕ} {t : Activity} {i : Interpreter} {fault : Fault} {positions : List Position}

theorem Activity.locate_raised (t : Activity) (fault : Fault) (positions : List Position) :
    t.locate (.raised fault positions.head?) =
      .raised fault (positions ++ t.position?.toList).head? := by
  unfold Activity.locate
  cases t.position? with
  | none => simp
  | some position =>
    cases positions with
    | nil => rfl
    | cons first rest => rfl

theorem Activity.exists_raised_of_locate {t : Activity} {failure : Failure} {fault : Fault}
    {position : Option Position} (h : t.locate failure = .raised fault position) :
    ∃ own, failure = .raised fault own := by
  unfold locate at h
  cases hown : t.position? with
  | none =>
    rw [hown] at h
    exact ⟨position, h⟩
  | some own =>
    rw [hown] at h
    cases failure with
    | exhausted => cases h
    | raised inner position =>
      cases position with
      | none =>
        cases h
        exact ⟨none, rfl⟩
      | some position =>
        cases h
        exact ⟨some position, rfl⟩

/-- A failure has the position of the list that has been entered last. -/
theorem Raises.fails (h : Raises depth t i fault positions) :
    (t.perform (evaluator depth)).FailsWith i (.raised fault positions.head?) := by
  induction h with
  | @itself depth t i fault position hfails hown =>
    have hposition : position = t.position? :=
      Activity.eq_position? (fun level s k hs failure hs' => absurd hs' (hown _ _ _ _ hs)) hfails
    rw [hposition] at hfails
    cases hcase : t.position? with
    | none =>
      rw [hcase] at hfails
      exact hfails
    | some own =>
      rw [hcase] at hfails
      exact hfails
  | within hstarts _ ih =>
    rw [← Activity.locate_raised]
    exact hstarts.fails ih

/-- How far an activity is from the bottom.  A native function runs at the depth at which it is
applied, and what it evaluates in turn runs at that depth again. -/
def Activity.rank (depth : ℕ) : Activity → ℕ
  | .eval _ _ => 2 * depth
  | .apply _ _ => 2 * depth
  | .call _ _ => 2 * depth + 1

theorem Activity.rank_le (depth : ℕ) (t : Activity) : t.rank depth ≤ 2 * depth + 1 := by
  cases t
  all_goals
    simp only [rank]
    omega

theorem InOrder.eq_eval {below : Evaluator} {scope : ScopeId} {admits : Interpreter → Datum → Prop}
    {xs : List Datum} {k : Interpreter} (h : InOrder below scope admits xs i t k) :
    ∃ x, t = .eval x scope := by
  induction h with
  | here => exact ⟨_, rfl⟩
  | later _ _ _ ih => exact ih

theorem InNative.rank_eq {below : Evaluator} {f : Native} {arguments : List Datum}
    {k : Interpreter} (h : InNative below f arguments i t k) (depth : ℕ) :
    t.rank depth = 2 * depth := by
  have hscript {folder file : String} (h : InScript below folder file i t k) :
      t.rank depth = 2 * depth := by
    cases h with
    | expression _ _ h =>
      obtain ⟨x, rfl⟩ := h.eq_eval
      rfl
  cases h with
  | imported h => exact hscript h
  | watched h => exact hscript h
  | handled => rfl

theorem Starts.rank_lt {level : ℕ} {s : Activity} {k : Interpreter}
    (h : Starts depth t i level s k) : s.rank level < t.rank depth := by
  have hle := s.rank_le level
  cases h with
  | list =>
    change _ < 2 * (level + 1)
    omega
  | apply =>
    change _ < 2 * (level + 1)
    omega
  | call h =>
    rw [h.rank_eq]
    exact Nat.lt_succ_self _

/-- Every fault comes up somewhere. -/
theorem exists_raises {position : Option Position}
    (hfails : (t.perform (evaluator depth)).FailsWith i (.raised fault position)) :
    ∃ positions, Raises depth t i fault positions := by
  -- inward along the chain, to the last activity that fails
  induction hrank : t.rank depth using Nat.strong_induction_on generalizing depth t i position with
  | _ rank ih =>
    by_cases hinner : ∃ level s k failure, Starts depth t i level s k ∧
        (s.perform (evaluator level)).FailsWith k failure
    · obtain ⟨level, s, k, failure, hstarts, hinner⟩ := hinner
      have hsame : t.locate failure = .raised fault position :=
        Except.error.inj ((hstarts.fails hinner).symm.trans hfails)
      obtain ⟨own, rfl⟩ := Activity.exists_raised_of_locate hsame
      obtain ⟨positions, h⟩ := ih _ (hrank ▸ hstarts.rank_lt) hinner rfl
      exact ⟨_, .within hstarts h⟩
    · refine ⟨_, .itself hfails fun level s k failure hstarts hs => hinner ?_⟩
      exact ⟨level, s, k, failure, hstarts, hs⟩

/-! ## Expressions of a text -/

/-- The chain starts with the list itself. -/
theorem Raises.ne_nil {own : Position} {items : List Datum} {scope : ScopeId}
    (h : Raises depth (.eval (.list (some own) items) scope) i fault positions) :
    positions ≠ [] := by
  generalize ht : Activity.eval (.list (some own) items) scope = t at h
  cases h with
  | itself =>
    subst ht
    exact List.cons_ne_nil own []
  | within =>
    subst ht
    exact List.append_ne_nil_of_right_ne_nil _ (List.cons_ne_nil own [])

theorem not_fails_of_evalStep {x value : Datum}
    (h : ∀ below scope, evalStep below x scope = pure value) (depth : ℕ) (scope : ScopeId)
    (i : Interpreter) (fault : Fault) (position : Option Position) :
    ¬ ((evaluator depth).eval x scope).FailsWith i (.raised fault position) := by
  intro hfails
  cases depth with
  | zero => cases hfails
  | succ depth =>
    change (evalStep (evaluator depth) x scope).FailsWith i _ at hfails
    rw [h] at hfails
    cases hfails

/-- What a text holds is a symbol, or a list with its position, or it does not fail. -/
theorem read_cases {source text : String} {x : Datum} (h : Datum.read source text = .ok x) :
    (∃ name, x = .symbol name) ∨ (∃ position items, x = .list (some position) items) ∨
      ∀ depth scope i fault position,
        ¬ ((evaluator depth).eval x scope).FailsWith i (.raised fault position) := by
  refine Datum.of_read (P := fun x => (∃ name, x = .symbol name) ∨
    (∃ position items, x = .list (some position) items) ∨ ∀ depth scope i fault position,
      ¬ ((evaluator depth).eval x scope).FailsWith i (.raised fault position))
    ⟨?_, ?_, ?_⟩ ?_ h
  · exact .inr (.inr (not_fails_of_evalStep fun _ _ => rfl))
  · exact fun position items _ => .inr (.inl ⟨position, items, rfl⟩)
  · -- what is quoted is returned
    exact fun datum _ => .inr (.inr (not_fails_of_evalStep fun _ _ => rfl))
  · intro datum hlexeme
    cases hlexeme with
    | symbol => exact .inl ⟨_, rfl⟩
    | text => exact .inr (.inr (not_fails_of_evalStep fun _ _ => rfl))
    | number => exact .inr (.inr (not_fails_of_evalStep fun _ _ => rfl))

/-- The failure of an expression that was read from a text is that of an undefined symbol, if the
expression is one, or it has the position of the list that was entered last and not left when its
fault came up.  The fault does not depend on the way to it. -/
theorem read_failure_located {source text : String} {x : Datum}
    (hread : Datum.read source text = .ok x) {scope : ScopeId} {position : Option Position}
    (hfails : ((evaluator depth).eval x scope).FailsWith i (.raised fault position)) :
    (∃ name, x = .symbol name ∧ fault = .undefinedSymbol name ∧ position = none) ∨
      ∃ innermost outer, position = some innermost ∧
        Raises depth (.eval x scope) i fault (innermost :: outer) ∧
        ∀ cause positions, Raises depth (.eval x scope) i cause positions →
          cause = fault ∧ positions.head? = some innermost := by
  rcases read_cases hread with ⟨name, rfl⟩ | ⟨own, items, rfl⟩ | hnever
  · left
    cases depth with
    | zero => cases hfails
    | succ depth =>
      cases hlookup : i.scopes.lookup scope name with
      | some value =>
        change ((evalStep (evaluator depth) (.symbol name) scope).runFrom i).1 = _ at hfails
        rw [runFrom_evalStep_bound _ hlookup] at hfails
        cases hfails
      | none =>
        change ((evalStep (evaluator depth) (.symbol name) scope).runFrom i).1 = _ at hfails
        rw [runFrom_evalStep_unbound _ hlookup] at hfails
        cases hfails
        exact ⟨name, rfl, rfl, rfl⟩
  · right
    obtain ⟨positions, hraises⟩ :=
      exists_raises (t := .eval (.list (some own) items) scope) hfails
    obtain ⟨innermost, outer, rfl⟩ := List.exists_cons_of_ne_nil hraises.ne_nil
    -- the position of the failure is determined by any chain, and so are its fault and the first
    -- list of every other chain
    have hsame {cause : Fault} {others : List Position}
        (h : Raises depth (.eval (.list (some own) items) scope) i cause others) :
        Failure.raised cause others.head? = .raised fault position :=
      Except.error.inj (h.fails.symm.trans hfails)
    have hposition : position = some innermost := by
      have := hsame hraises
      injection this with _ hposition
      exact hposition.symm
    refine ⟨innermost, outer, hposition, hraises, fun cause others h => ?_⟩
    have hother := hsame h
    rw [hposition] at hother
    injection hother with hcause hhead
    exact ⟨hcause, hhead⟩
  · exact absurd hfails (hnever _ _ _ _ _)

theorem read_failure_located_nested : ∃ outer,
    Raises 3 (.eval (.list (some ⟨"t", 1, 1⟩)
        [.symbol "list", .list (some ⟨"t", 1, 7⟩) [.symbol "undeclared"]]) globalScope)
      .initial (.undefinedSymbol "undeclared") (⟨"t", 1, 7⟩ :: outer) := by
  have hread : Datum.read "t" "(list (undeclared))" = .ok (.list (some ⟨"t", 1, 1⟩)
      [.symbol "list", .list (some ⟨"t", 1, 7⟩) [.symbol "undeclared"]]) := by rfl
  have hfails : ((evaluator 3).eval (.list (some ⟨"t", 1, 1⟩)
      [.symbol "list", .list (some ⟨"t", 1, 7⟩) [.symbol "undeclared"]]) globalScope).FailsWith
        .initial (.raised (.undefinedSymbol "undeclared") (some ⟨"t", 1, 7⟩)) := by rfl
  rcases read_failure_located hread hfails with ⟨name, h, _⟩ | ⟨innermost, outer, h, hraises, _⟩
  · cases h
  · cases h
    exact ⟨outer, hraises⟩

end Reckoner.Evaluation
