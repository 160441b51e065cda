import Mathlib.Order.Defs.Unbundled
import Reckoner.Interpreter

/-!
# Running actions

The first group of lemmas runs an action step by step: what a bind does after a value and after a
failure, what reading and changing the state gives.

`FailsWith` and `FailsBare` say how a run fails.  Only a list puts a position on a failure, so an
action fails bare unless something that it evaluates does not.

`Leads R Q action i` is the statement that most results about actions have: whatever the outcome,
the last state is related to the first by `R`, and a value satisfies `Q` in the last state.  There
is one rule for each way in which actions are composed; the relation has to be a preorder.  `Runs`
is the case where what holds of a value does not depend on the state.
-/

namespace Reckoner.Action

variable {α β γ : Type} {i j : Interpreter} {x : Action α} {f : α → Action β} {a : α}
  {failure : Failure}

/-! ## Single runs -/

@[simp] theorem runFrom_pure (a : α) (i : Interpreter) :
    (pure a : Action α).runFrom i = (.ok a, i) := rfl

theorem runFrom_bind_ok (h : x.runFrom i = (.ok a, j)) : (x >>= f).runFrom i = (f a).runFrom j := by
  simp only [runFrom, ExceptT.run_bind, StateT.run_bind] at h ⊢
  rw [h]
  rfl

theorem runFrom_bind_error (h : x.runFrom i = (.error failure, j)) :
    (x >>= f).runFrom i = (.error failure, j) := by
  simp only [runFrom, ExceptT.run_bind, StateT.run_bind] at h ⊢
  rw [h]
  rfl

theorem runFrom_get (i : Interpreter) : (get : Action Interpreter).runFrom i = (.ok i, i) := rfl

@[simp] theorem runFrom_get_bind (f : Interpreter → Action β) (i : Interpreter) :
    (get >>= f).runFrom i = (f i).runFrom i := rfl

@[simp] theorem runFrom_modify_bind (update : Interpreter → Interpreter) (f : Unit → Action β)
    (i : Interpreter) :
    ((modify update : Action Unit) >>= f).runFrom i = (f ()).runFrom (update i) :=
  rfl

theorem runFrom_tryCatch_ok {handler : Failure → Action α} (h : x.runFrom i = (.ok a, j)) :
    (tryCatch x handler).runFrom i = (.ok a, j) := by
  change StateT.run x i = _ at h
  simp only [runFrom, tryCatch, tryCatchThe, MonadExceptOf.tryCatch, ExceptT.tryCatch,
    ExceptT.run_mk, StateT.run_bind]
  rw [h]
  rfl

theorem runFrom_tryCatch_error {handler : Failure → Action α}
    (h : x.runFrom i = (.error failure, j)) :
    (tryCatch x handler).runFrom i = (handler failure).runFrom j := by
  change StateT.run x i = _ at h
  simp only [runFrom, tryCatch, tryCatchThe, MonadExceptOf.tryCatch, ExceptT.tryCatch,
    ExceptT.run_mk, StateT.run_bind]
  rw [h]
  rfl

/-- A list puts its position on the failures that have none, and does nothing else. -/
theorem runFrom_located (position : Position) (x : Action α) (i : Interpreter) :
    (located position x).runFrom i =
      ((x.runFrom i).1.mapError (·.locate position), (x.runFrom i).2) := by
  rw [located]
  rcases hrun : x.runFrom i with ⟨outcome, j⟩
  cases outcome with
  | ok a => exact runFrom_tryCatch_ok hrun
  | error failure => exact runFrom_tryCatch_error hrun

/-- A last update that is made in any case leaves the outcome alone. -/
theorem runFrom_andThenAlways (update : Interpreter → Interpreter) (x : Action α)
    (i : Interpreter) :
    (andThenAlways x (modify update)).runFrom i = ((x.runFrom i).1, update (x.runFrom i).2) := by
  rcases hrun : x.runFrom i with ⟨outcome, j⟩
  cases outcome with
  | ok a => exact runFrom_bind_ok (runFrom_tryCatch_ok hrun)
  | error failure => exact runFrom_bind_error (runFrom_tryCatch_error hrun)

theorem runFrom_ofExcept_ok {ε : Type} (fault : ε → Fault) (a : α) (i : Interpreter) :
    (ofExcept fault (.ok a)).runFrom i = (.ok a, i) := rfl

theorem runFrom_ofExcept_error {ε : Type} (fault : ε → Fault) (e : ε) (i : Interpreter) :
    (ofExcept fault (.error e) : Action α).runFrom i = (.error (.raised (fault e) none), i) := rfl

/-- Every run ends in a value or in a failure. -/
theorem runFrom_cases (x : Action α) (i : Interpreter) :
    (∃ a j, x.runFrom i = (.ok a, j)) ∨ ∃ failure j, x.runFrom i = (.error failure, j) := by
  rcases hrun : x.runFrom i with ⟨outcome, j⟩
  cases outcome with
  | ok a => exact .inl ⟨a, j, rfl⟩
  | error failure => exact .inr ⟨failure, j, rfl⟩

/-- A run that gives a value has given one at each step. -/
theorem exists_of_runFrom_bind {b : β} {k : Interpreter} (h : (x >>= f).runFrom i = (.ok b, k)) :
    ∃ a j, x.runFrom i = (.ok a, j) ∧ (f a).runFrom j = (.ok b, k) := by
  rcases runFrom_cases x i with ⟨a, j, hrun⟩ | ⟨failure, j, hrun⟩
  · rw [runFrom_bind_ok hrun] at h
    exact ⟨a, j, hrun, h⟩
  · rw [runFrom_bind_error hrun] at h
    cases h

/-- What does not fail and gives its argument back leaves the outcome alone. -/
theorem outcome_bind_of_ok {f : α → Action α} (hf : ∀ a j, ((f a).runFrom j).1 = .ok a)
    (x : Action α) (i : Interpreter) : ((x >>= f).runFrom i).1 = (x.runFrom i).1 := by
  rcases runFrom_cases x i with ⟨a, j, hrun⟩ | ⟨failure, j, hrun⟩
  · rw [runFrom_bind_ok hrun, hrun]
    exact hf a j
  · rw [runFrom_bind_error hrun, hrun]

/-! ## How a run fails -/

/-- The run ends in a failure. -/
def FailsWith (x : Action α) (i : Interpreter) (failure : Failure) : Prop :=
  (x.runFrom i).1 = .error failure

/-- The failures of a run have no position. -/
def FailsBare (x : Action α) (i : Interpreter) : Prop :=
  ∀ failure, x.FailsWith i failure → ∃ fault, failure = .raised fault none

theorem FailsWith.bind (h : x.FailsWith i failure) : (x >>= f).FailsWith i failure := by
  rcases hrun : x.runFrom i with ⟨outcome, j⟩
  rw [FailsWith, hrun] at h
  cases h
  rw [FailsWith, runFrom_bind_error hrun]

theorem FailsWith.bind_ok (hx : x.runFrom i = (.ok a, j)) (h : (f a).FailsWith j failure) :
    (x >>= f).FailsWith i failure := by
  rw [FailsWith, runFrom_bind_ok hx]
  exact h

theorem failsWith_bind_iff : (x >>= f).FailsWith i failure ↔
    x.FailsWith i failure ∨ ∃ a j, x.runFrom i = (.ok a, j) ∧ (f a).FailsWith j failure := by
  constructor
  · intro h
    rcases runFrom_cases x i with ⟨a, j, hrun⟩ | ⟨inner, j, hrun⟩
    · rw [FailsWith, runFrom_bind_ok hrun] at h
      exact .inr ⟨a, j, hrun, h⟩
    · rw [FailsWith, runFrom_bind_error hrun] at h
      cases h
      exact .inl (congrArg Prod.fst hrun)
  · rintro (h | ⟨a, j, hx, h⟩)
    · exact h.bind
    · exact .bind_ok hx h

theorem failsBare_pure (a : α) (i : Interpreter) : FailsBare (pure a) i := by
  intro failure h
  cases h

theorem failsBare_fail (fault : Fault) (i : Interpreter) : FailsBare (fail fault : Action α) i := by
  intro failure h
  cases h
  exact ⟨fault, rfl⟩

theorem failsBare_ofExcept {ε : Type} (fault : ε → Fault) (result : Except ε α)
    (i : Interpreter) : FailsBare (ofExcept fault result) i := by
  cases result with
  | ok a => exact failsBare_pure a i
  | error e => exact failsBare_fail _ i

theorem failsBare_modify (update : Interpreter → Interpreter) (i : Interpreter) :
    FailsBare (modify update : Action Unit) i := by
  intro failure h
  cases h

theorem failsBare_get_bind {f : Interpreter → Action β} (h : FailsBare (f i) i) :
    FailsBare (get >>= f) i := h

theorem FailsBare.bind (hx : FailsBare x i)
    (hf : ∀ a j, x.runFrom i = (.ok a, j) → FailsBare (f a) j) : FailsBare (x >>= f) i := by
  intro failure h
  rcases failsWith_bind_iff.1 h with h | ⟨a, j, hrun, h⟩
  · exact hx failure h
  · exact hf a j hrun failure h

theorem failsBare_forIn {xs : List γ} {body : γ → PUnit → Action (ForInStep PUnit)}
    (h : ∀ c ∈ xs, ∀ j, FailsBare (body c ⟨⟩) j) (i : Interpreter) :
    FailsBare (forIn xs ⟨⟩ body) i := by
  induction xs generalizing i with
  | nil => exact failsBare_pure _ i
  | cons c xs ih =>
    rw [List.forIn_cons]
    refine (h c List.mem_cons_self i).bind fun step j _ => ?_
    cases step with
    | done => exact failsBare_pure _ j
    | yield => exact ih (fun d hd => h d (List.mem_cons_of_mem c hd)) j

/-- A failure of one run is a failure of another that has the same outcome. -/
theorem FailsBare.of_outcome {y : Action α} (h : FailsBare y j)
    (houtcome : (x.runFrom i).1 = (y.runFrom j).1) : FailsBare x i :=
  fun failure hfails => h failure (houtcome.symm.trans hfails)

/-! ## What every run does -/

/-- Whatever the outcome, the last state is related to the first one; a value has a property in the
last state. -/
def Leads (R : Interpreter → Interpreter → Prop) (Q : Interpreter → α → Prop) (action : Action α)
    (i : Interpreter) : Prop :=
  R i (action.runFrom i).2 ∧ ∀ a, (action.runFrom i).1 = .ok a → Q (action.runFrom i).2 a

/-- Whatever the outcome, the last state is related to the first one; a value has a property. -/
def Runs (R : Interpreter → Interpreter → Prop) (Q : α → Prop) (action : Action α)
    (i : Interpreter) : Prop :=
  R i (action.runFrom i).2 ∧ ∀ a, (action.runFrom i).1 = .ok a → Q a

section Leads

variable {R : Interpreter → Interpreter → Prop} {Q : Interpreter → α → Prop}
  {P : Interpreter → β → Prop}

theorem Leads.mono {R' : Interpreter → Interpreter → Prop} (h : Leads R Q x i)
    (himp : ∀ {j}, R i j → R' i j) : Leads R' Q x i :=
  ⟨himp h.1, h.2⟩

theorem leads_get_bind {f : Interpreter → Action β} (h : Leads R P (f i) i) :
    Leads R P (get >>= f) i := h

theorem leads_modify {update : Interpreter → Interpreter} (h : R i (update i)) :
    Leads R (fun _ _ => True) (modify update : Action Unit) i :=
  ⟨h, fun _ _ => trivial⟩

/-- What holds of a value in the first state and stays true holds in the last one. -/
theorem Runs.leads {V : α → Prop} (h : Runs R V x i) (hstay : ∀ j a, R i j → V a → Q j a) :
    Leads R Q x i :=
  ⟨h.1, fun a ha => hstay _ a h.1 (h.2 a ha)⟩

variable [IsPreorder Interpreter R]

theorem leads_pure (h : Q i a) : Leads R Q (pure a) i := by
  refine ⟨refl i, ?_⟩
  rintro b hb
  cases hb
  exact h

theorem leads_throw (failure : Failure) : Leads R Q (throw failure) i :=
  ⟨refl i, fun _ ha => by cases ha⟩

theorem leads_fail (fault : Fault) : Leads R Q (fail fault) i := leads_throw _

theorem Leads.bind (hx : Leads R Q x i) (hf : ∀ a j, R i j → Q j a → Leads R P (f a) j) :
    Leads R P (x >>= f) i := by
  obtain ⟨hstate, hvalue⟩ := hx
  rcases runFrom_cases x i with ⟨a, j, hrun⟩ | ⟨failure, j, hrun⟩
  · rw [hrun] at hstate hvalue
    obtain ⟨hlast, hresult⟩ := hf a j hstate (hvalue a rfl)
    rw [Leads, runFrom_bind_ok hrun]
    exact ⟨Trans.trans hstate hlast, hresult⟩
  · rw [hrun] at hstate
    rw [Leads, runFrom_bind_error hrun]
    exact ⟨hstate, fun _ hb => by cases hb⟩

/-- A pure computation does not change the state. -/
theorem leads_ofExcept_bind {ε : Type} {fault : ε → Fault} {result : Except ε α}
    (h : ∀ a, result = .ok a → Leads R P (f a) i) : Leads R P (ofExcept fault result >>= f) i := by
  cases result with
  | ok a => exact h a rfl
  | error e => exact leads_fail _

theorem Leads.tryCatch {handler : Failure → Action α} (hx : Leads R Q x i)
    (hhandler : ∀ failure j, R i j → Leads R Q (handler failure) j) :
    Leads R Q (tryCatch x handler) i := by
  obtain ⟨hstate, hvalue⟩ := hx
  rcases runFrom_cases x i with ⟨a, j, hrun⟩ | ⟨failure, j, hrun⟩
  · rw [hrun] at hstate hvalue
    rw [Leads, runFrom_tryCatch_ok hrun]
    exact ⟨hstate, hvalue⟩
  · rw [hrun] at hstate
    obtain ⟨hlast, hresult⟩ := hhandler failure j hstate
    rw [Leads, runFrom_tryCatch_error hrun]
    exact ⟨Trans.trans hstate hlast, hresult⟩

theorem Leads.located (hx : Leads R Q x i) (position : Position) :
    Leads R Q (located position x) i :=
  hx.tryCatch fun _ _ _ => leads_throw _

/-- What is done last in any case must not spoil the value. -/
theorem Leads.andThenAlways {last : Action Unit} (hx : Leads R Q x i)
    (hlast : ∀ j, R i j → Leads R (fun _ _ => True) last j)
    (hstay : ∀ j k a, R j k → Q j a → Q k a) : Leads R Q (andThenAlways x last) i := by
  have hfirst : Leads R Q (MonadExcept.tryCatch x fun failure => do last; throw failure) i :=
    hx.tryCatch fun failure j hj => (hlast j hj).bind fun _ _ _ _ => leads_throw failure
  exact hfirst.bind fun a j hj ha =>
    (hlast j hj).bind fun _ k hk _ => leads_pure (hstay j k a hk ha)

end Leads

variable {R : Interpreter → Interpreter → Prop} {Q : α → Prop} {P : β → Prop}

theorem Runs.mono {R' : Interpreter → Interpreter → Prop} (h : Runs R Q x i)
    (himp : ∀ {j}, R i j → R' i j) : Runs R' Q x i :=
  ⟨himp h.1, h.2⟩

theorem runs_modify {update : Interpreter → Interpreter} (h : R i (update i)) :
    Runs R (fun _ => True) (modify update : Action Unit) i :=
  leads_modify h

theorem runs_set (h : R i j) : Runs R (fun _ => True) (set j : Action Unit) i :=
  ⟨h, fun _ _ => trivial⟩

theorem runs_get_bind {f : Interpreter → Action β} (h : Runs R P (f i) i) :
    Runs R P (get >>= f) i := h

variable [IsPreorder Interpreter R]

theorem runs_pure (h : Q a) : Runs R Q (pure a) i := leads_pure (Q := fun _ => Q) h

theorem runs_throw (failure : Failure) : Runs R Q (throw failure) i :=
  leads_throw (Q := fun _ => Q) failure

theorem runs_fail (fault : Fault) : Runs R Q (fail fault) i := runs_throw _

theorem runs_ofExcept {ε : Type} {fault : ε → Fault} {result : Except ε α}
    (h : ∀ a, result = .ok a → Q a) : Runs R Q (ofExcept fault result) i := by
  cases result with
  | ok a => exact runs_pure (h a rfl)
  | error e => exact runs_fail _

theorem Runs.bind (hx : Runs R Q x i) (hf : ∀ a j, R i j → Q a → Runs R P (f a) j) :
    Runs R P (x >>= f) i :=
  Leads.bind (Q := fun _ => Q) (P := fun _ => P) hx hf

/-- A pure computation does not change the state. -/
theorem runs_ofExcept_bind {ε : Type} {fault : ε → Fault} {result : Except ε α}
    (h : ∀ a, result = .ok a → Runs R P (f a) i) : Runs R P (ofExcept fault result >>= f) i :=
  leads_ofExcept_bind (P := fun _ => P) h

theorem Runs.tryCatch {handler : Failure → Action α} (hx : Runs R Q x i)
    (hhandler : ∀ failure j, R i j → Runs R Q (handler failure) j) :
    Runs R Q (tryCatch x handler) i :=
  Leads.tryCatch (Q := fun _ => Q) hx hhandler

theorem runs_forIn {xs : List γ} {body : γ → PUnit → Action (ForInStep PUnit)}
    (h : ∀ c ∈ xs, ∀ j, R i j → Runs R (fun _ => True) (body c ⟨⟩) j) :
    Runs R (fun _ => True) (forIn xs ⟨⟩ body) i := by
  induction xs generalizing i with
  | nil => exact runs_pure trivial
  | cons c xs ih =>
    rw [List.forIn_cons]
    refine (h c List.mem_cons_self i (refl i)).bind fun step j hj _ => ?_
    cases step with
    | done => exact runs_pure trivial
    | yield =>
      exact ih fun d hd k hk => h d (List.mem_cons_of_mem c hd) k (Trans.trans hj hk)

end Reckoner.Action
