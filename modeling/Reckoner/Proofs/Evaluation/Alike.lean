import Reckoner.Proofs.Datum.Blur
import Reckoner.Proofs.Evaluation.Evolution

/-!
# Runs that are alike

Two states are alike when they are the same up to the positions inside the functions that variables
and watches hold: `Interpreter.blur` is what they have in common.  `Alike n x y i j` says that two
actions, run from two states, end in states that are alike and give the same value up to `n`, or
fail for the same reason: the same cause up to positions.

It is an equation between normal forms, so it is symmetric and transitive, and an action can be
compared with another one through a third.  There is one rule for each way in which actions are
composed.
-/

namespace Reckoner

/-- What a failure is about, whatever its position.  There is no cause when the evaluation was cut
off. -/
def Failure.cause : Failure → Option Fault
  | .raised fault _ => some fault
  | .exhausted => none

/-- The cause of a failure up to positions. -/
def Failure.reason (failure : Failure) : Option Fault := failure.cause.map Fault.blur

/-- Variables with their values up to positions. -/
def Bindings.blur (bindings : Bindings) : Bindings :=
  bindings.map fun binding => (binding.1, binding.2.blur .value)

/-- A scope up to positions. -/
def Scope.blur (scope : Scope) : Scope := { scope with bindings := scope.bindings.blur }

/-- A table of scopes up to positions. -/
def ScopeTable.blur (t : ScopeTable) : ScopeTable := t.map Scope.blur

/-- A watched file, with its handler up to positions. -/
def Watch.blur (watch : Watch) : Watch :=
  { watch with handler := watch.handler.map (Datum.blur .value) }

/-- A state up to positions. -/
def Interpreter.blur (i : Interpreter) : Interpreter :=
  { i with scopes := i.scopes.blur, watches := i.watches.map Watch.blur }

theorem Bindings.blur_blur (bindings : Bindings) : bindings.blur.blur = bindings.blur := by
  unfold Bindings.blur
  rw [List.map_map]
  exact List.map_congr_left fun binding _ =>
    congrArg (Prod.mk binding.1) (Datum.blur_value_blur .value binding.2)

theorem Watch.blur_blur (watch : Watch) : watch.blur.blur = watch.blur := by
  unfold Watch.blur
  cases watch.handler with
  | none => rfl
  | some handler => simp [Datum.blur_value_blur]

namespace ScopeTable

variable (t : ScopeTable)

end ScopeTable

namespace Interpreter

variable {i j : Interpreter}

end Interpreter

/-! ## Actions -/

namespace Action

variable {α β γ δ ε : Type} {n : α → γ} {m : β → δ} {x y z : Action α} {i j k : Interpreter}

/-- Two runs end in states that are alike, and give the same value up to `n` or fail for the same
reason. -/
structure Alike (n : α → γ) (x y : Action α) (i j : Interpreter) : Prop where
  state : (x.runFrom i).2.blur = (y.runFrom j).2.blur
  outcome : ((x.runFrom i).1.mapError Failure.reason).map n =
    ((y.runFrom j).1.mapError Failure.reason).map n

theorem Alike.symm (h : Alike n x y i j) : Alike n y x j i := ⟨h.state.symm, h.outcome.symm⟩

theorem Alike.trans (h : Alike n x y i j) (h' : Alike n y z j k) : Alike n x z i k :=
  ⟨h.state.trans h'.state, h.outcome.trans h'.outcome⟩

/-- Both runs give values that are the same up to `n`, or both fail for one reason. -/
theorem Alike.cases (h : Alike n x y i j) :
    (∃ a b i' j', x.runFrom i = (.ok a, i') ∧ y.runFrom j = (.ok b, j') ∧ n a = n b ∧
      i'.blur = j'.blur) ∨
    ∃ e f i' j', x.runFrom i = (.error e, i') ∧ y.runFrom j = (.error f, j') ∧
      e.reason = f.reason ∧ i'.blur = j'.blur := by
  obtain ⟨hstate, houtcome⟩ := h
  rcases runFrom_cases x i with ⟨a, i', hx⟩ | ⟨e, i', hx⟩
  · rcases runFrom_cases y j with ⟨b, j', hy⟩ | ⟨f, j', hy⟩
    · rw [hx, hy] at hstate houtcome
      exact .inl ⟨a, b, i', j', hx, hy, Except.ok.inj houtcome, hstate⟩
    · rw [hx, hy] at houtcome
      cases houtcome
  · rcases runFrom_cases y j with ⟨b, j', hy⟩ | ⟨f, j', hy⟩
    · rw [hx, hy] at houtcome
      cases houtcome
    · rw [hx, hy] at hstate houtcome
      exact .inr ⟨e, f, i', j', hx, hy, Except.error.inj houtcome, hstate⟩

theorem alike_of_error {e f : Failure} {i' j' : Interpreter} (hx : x.runFrom i = (.error e, i'))
    (hy : y.runFrom j = (.error f, j')) (hreason : e.reason = f.reason)
    (hstate : i'.blur = j'.blur) : Alike n x y i j := by
  constructor
  · rw [hx, hy]
    exact hstate
  · rw [hx, hy]
    exact congrArg Except.error hreason

theorem Alike.bind {f g : α → Action β} (hx : Alike n x y i j)
    (hf : ∀ a b i' j', n a = n b → i'.blur = j'.blur → Alike m (f a) (g b) i' j') :
    Alike m (x >>= f) (y >>= g) i j := by
  rcases hx.cases with ⟨a, b, i', j', hxrun, hyrun, hvalue, hstate⟩ |
    ⟨e, e', i', j', hxrun, hyrun, hreason, hstate⟩
  · obtain ⟨hlast, hresult⟩ := hf a b i' j' hvalue hstate
    constructor
    · rw [runFrom_bind_ok hxrun, runFrom_bind_ok hyrun]
      exact hlast
    · rw [runFrom_bind_ok hxrun, runFrom_bind_ok hyrun]
      exact hresult
  · exact alike_of_error (runFrom_bind_error hxrun) (runFrom_bind_error hyrun) hreason hstate

/-- A list puts its position on failures, which does not change their reason. -/
theorem Alike.located (h : Alike n x y i j) (position : Position) :
    Alike n (located position x) y i j := by
  have hreason (failure : Failure) : (failure.locate position).reason = failure.reason := by
    cases failure with
    | exhausted => rfl
    | raised fault own => cases own <;> rfl
  constructor
  · rw [runFrom_located]
    exact h.state
  · rw [runFrom_located, ← h.outcome]
    cases (x.runFrom i).1 with
    | ok a => rfl
    | error failure => exact congrArg Except.error (hreason failure)

theorem Alike.andThenAlways (h : Alike n x y i j) {u : Interpreter → Interpreter}
    (hu : ∀ i j : Interpreter, i.blur = j.blur → (u i).blur = (u j).blur) :
    Alike n (andThenAlways x (modify u)) (andThenAlways y (modify u)) i j := by
  constructor
  · rw [runFrom_andThenAlways, runFrom_andThenAlways]
    exact hu _ _ h.state
  · rw [runFrom_andThenAlways, runFrom_andThenAlways]
    exact h.outcome

end Action

end Reckoner
