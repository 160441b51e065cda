import Reckoner.Proofs.Evaluation.Frame

/-!
# What a definition makes visible

A definition goes outward past the sealed scopes to the first scope that takes it, and a variable is
looked up from the scope itself outward.  The two walks take the same steps, so what is defined is
what is seen, unless a sealed scope on the way has a variable of that name: `covering?` is the value
that it has there.

* `lookup_assign` is the comparison of the two walks in one table.
* `coveringFrom_eq` says that an evaluation leaves `covering?` alone, because it leaves sealed
  scopes alone.
* `Evaluation.definition_visible` combines them for `define` and `set`.
-/

namespace Reckoner

namespace ScopeTable

/-- The value that a variable has in the sealed scopes that a definition passes on its way outward,
the innermost one first. -/
def coveringFrom (t : ScopeTable) (fuel : ℕ) (id : ScopeId) (name : String) : Option Datum :=
  ((t.chainFrom fuel id).takeWhile fun entry => entry.2.isSealed).findSome? fun entry =>
    entry.2.bindings.lookup name

/-- The value of a variable that a definition in a scope does not reach. -/
def covering? (t : ScopeTable) (id : ScopeId) (name : String) : Option Datum :=
  t.coveringFrom (id + 1) id name

variable {t u : ScopeTable} {fuel id target : ℕ} {scope : Scope} {name : String}

theorem coveringFrom_open (hscope : t[id]? = some scope) (hopen : scope.isSealed = false)
    (fuel : ℕ) (name : String) : t.coveringFrom fuel id name = none := by
  cases fuel with
  | zero => rfl
  | succ fuel => simp [coveringFrom, chainFrom, hscope, hopen]

theorem coveringFrom_sealed {outer : ℕ} (hscope : t[id]? = some scope)
    (hsealed : scope.isSealed = true) (houter : scope.outer = some outer) (fuel : ℕ)
    (name : String) :
    t.coveringFrom (fuel + 1) id name =
      (scope.bindings.lookup name).or (t.coveringFrom fuel outer name) := by
  rw [coveringFrom, chainFrom, hscope]
  simp only [houter, List.takeWhile_cons, hsealed, if_true, List.findSome?_cons]
  cases scope.bindings.lookup name <;> rfl

/-- A variable that is not in a scope is looked up outside it. -/
theorem lookupFrom_succ {outer : ℕ} (hscope : t[id]? = some scope)
    (houter : scope.outer = some outer) (fuel : ℕ) (name : String) :
    t.lookupFrom name (fuel + 1) id =
      (scope.bindings.lookup name).or (t.lookupFrom name fuel outer) := by
  rw [lookupFrom, hscope]
  dsimp only
  rw [houter]
  cases scope.bindings.lookup name <;> rfl

end ScopeTable

theorem Bindings.lookup_assign (bindings : Bindings) (name : String) (value : Datum) :
    (bindings.assign name value).lookup name = some value := by
  induction bindings with
  | nil => simp [Bindings.assign]
  | cons binding rest ih =>
    obtain ⟨other, old⟩ := binding
    rw [Bindings.assign]
    split
    · simp
    · rename_i hne
      have hother : (name == other) = false := beq_false_of_ne (Ne.symm hne)
      rw [List.lookup_cons, hother]
      exact ih

namespace ScopeTable

variable {t u : ScopeTable} {fuel id target : ℕ} {name : String}

/-- What is seen after a definition: the value, unless a sealed scope on the way covers it. -/
theorem lookupFrom_assign (ht : t.Layered) (h : t.DefinesAt id target) (value : Datum)
    (hfuel : id < fuel) :
    (t.assign target name value).lookupFrom name fuel id =
      some ((t.coveringFrom fuel id name).getD value) := by
  -- both walks follow the way to the target, so the induction is on that
  induction h generalizing fuel with
  | @here id scope hscope hopen =>
    obtain ⟨fuel, rfl⟩ := Nat.exists_eq_succ_of_ne_zero (Nat.ne_zero_of_lt hfuel)
    rw [lookupFrom, getElem?_assign, if_pos rfl, hscope, coveringFrom_open hscope hopen]
    simp [Bindings.lookup_assign]
  | @outward id outer target scope hscope hsealed houter htarget ih =>
    obtain ⟨fuel, rfl⟩ := Nat.exists_eq_succ_of_ne_zero (Nat.ne_zero_of_lt hfuel)
    obtain ⟨place, hplace, hlt⟩ := ht.outer id scope hscope hsealed
    cases houter.symm.trans hplace
    have hne : target ≠ id := by
      rintro rfl
      rw [htarget.not_sealed hscope] at hsealed
      cases hsealed
    have hkept : (t.assign target name value)[id]? = some scope := by
      rw [getElem?_assign, if_neg hne, hscope]
    rw [lookupFrom_succ hkept houter, coveringFrom_sealed hscope hsealed houter,
      ih (hlt.trans_le (Nat.le_of_lt_succ hfuel))]
    cases scope.bindings.lookup name <;> rfl

theorem lookup_assign (ht : t.Layered) (hid : id < t.size) (name : String) (value : Datum) :
    (t.assign (t.definitionTarget id) name value).lookup id name =
      some ((t.covering? id name).getD value) :=
  lookupFrom_assign ht (definesAt_definitionTarget ht hid) value (Nat.lt_succ_self id)

theorem coveringFrom_eq (h : t.DefinesAt id target) (hext : t.Extends u)
    (hkept : ∀ (id : ScopeId) (scope : Scope), t[id]? = some scope → scope.isSealed = true →
      u[id]? = some scope) (fuel : ℕ) (name : String) :
    u.coveringFrom fuel id name = t.coveringFrom fuel id name := by
  induction h generalizing fuel with
  | here hscope hopen =>
    obtain ⟨after, hafter, _, hsealed⟩ := hext _ _ hscope
    rw [coveringFrom_open hscope hopen, coveringFrom_open hafter (hsealed.trans hopen)]
  | outward hscope hsealed houter _ ih =>
    cases fuel with
    | zero => rfl
    | succ fuel =>
      rw [coveringFrom_sealed hscope hsealed houter,
        coveringFrom_sealed (hkept _ _ hscope hsealed) hsealed houter, ih]

end ScopeTable

/-! ## Definitions in an evaluation -/

namespace Evaluation

open Reckoner.Action

variable {i j : Interpreter} {scope : ScopeId} {name keyword : String} {x value : Datum}

/-- A definition that gives a value has evaluated its expression to that value, and does nothing
after that but define it. -/
theorem exists_define_of_evalList {below : Evaluator}
    (hkeyword : keyword = "define" ∨ keyword = "set")
    (h : (evalList below scope [.symbol keyword, .symbol name, x]).runFrom i = (.ok value, j)) :
    ∃ k, (below.eval x scope).runFrom i = (.ok value, k) ∧ j = k.define scope name value := by
  have hform : evalList below scope [.symbol keyword, .symbol name, x] =
      evalDefinition below keyword scope [.symbol name, x] := by
    rcases hkeyword with rfl | rfl <;> rfl
  rw [hform, evalDefinition] at h
  rcases runFrom_cases (below.eval x scope) i with ⟨found, k, hx⟩ | ⟨failure, k, hx⟩
  · rw [runFrom_bind_ok hx, runFrom_modify_bind, runFrom_pure] at h
    cases h
    exact ⟨k, hx, rfl⟩
  · rw [runFrom_bind_error hx] at h
    cases h

/-- An evaluation keeps the scopes in order, and the sealed ones as they are. -/
theorem keepsSealed_eval (h : i.WellFormed) (depth : ℕ) (hx : i.Admits x)
    (hscope : scope < i.scopes.size)
    (hrun : ((evaluator depth).eval x scope).runFrom i = (.ok value, j)) :
    i.scopes.Extends j.scopes ∧ j.scopes.Layered ∧ i.KeepsSealed j := by
  obtain ⟨v, hholds, hshell, hadmits, _⟩ := h.exists_vocabulary
  have hevolves := ((evaluator_obeys v depth).eval hholds (hadmits x hx).1 scope).1
  rw [hrun] at hevolves
  obtain ⟨hframed, hlayered⟩ := hevolves.framed h.layered hshell
    fun other heq => Option.some.inj heq ▸ hscope
  refine ⟨hframed.scopes, hlayered, hframed.keepsSealed h.layered ?_⟩
  intro id found heq hfound
  cases heq
  exact (ScopeTable.definesAt_definitionTarget h.layered hscope).not_sealed hfound

/-- What is defined is seen.  When a definition in a scope gives a value, looking the variable up in
that scope right after it gives the same value, unless a sealed scope that the definition passes on
its way outward has a variable of that name: then its value is seen, as before. -/
theorem definition_visible (h : i.WellFormed) (hscope : scope < i.scopes.size) (hx : i.Admits x)
    (hkeyword : keyword = "define" ∨ keyword = "set") {position : Option Position} {depth : ℕ}
    (hrun : ((evaluator depth).eval
      (.list position [.symbol keyword, .symbol name, x]) scope).runFrom i = (.ok value, j)) :
    ((evaluator depth).eval (.symbol name) scope).runFrom j =
      (.ok ((i.scopes.covering? scope name).getD value), j) := by
  cases depth with
  | zero => cases hrun
  | succ depth =>
    have hlist : (evalList (evaluator depth) scope [.symbol keyword, .symbol name, x]).runFrom i =
        (.ok value, j) := by
      cases position with
      | none => exact hrun
      | some position =>
        change (located position _).runFrom i = _ at hrun
        rw [runFrom_located] at hrun
        rcases hitems : (evalList (evaluator depth) scope
          [.symbol keyword, .symbol name, x]).runFrom i with ⟨outcome, last⟩
        rw [hitems] at hrun
        cases outcome with
        | ok found =>
          cases hrun
          rfl
        | error failure => cases hrun
    obtain ⟨k, hvalue, rfl⟩ := exists_define_of_evalList hkeyword hlist
    obtain ⟨hext, hlayered, hsealed⟩ := keepsSealed_eval h depth hx hscope hvalue
    have hcovering : k.scopes.covering? scope name = i.scopes.covering? scope name :=
      ScopeTable.coveringFrom_eq (ScopeTable.definesAt_definitionTarget h.layered hscope) hext
        hsealed _ name
    refine runFrom_evalStep_bound (evaluator depth) ?_
    rw [← hcovering]
    exact ScopeTable.lookup_assign hlayered (hscope.trans_le hext.size_le) name value

theorem definition_visible_shell :
    (Interpreter.initial.withShell "").WellFormed ∧
      (let i := Interpreter.initial.withShell ""
      let x := Datum.ofList [.symbol "define", .symbol "x", .number (.int64 1)]
      let j := (((evaluator 2).eval x shellScope).runFrom i).2
      ((evaluator 2).eval (.symbol "x") shellScope).runFrom j =
        (.ok ((i.scopes.covering? shellScope "x").getD (.number (.int64 1))), j) ∧
        i.scopes.covering? shellScope "x" = none) := by
  have hrun : ((evaluator 2).eval
      (.ofList [.symbol "define", .symbol "x", .number (.int64 1)]) shellScope).runFrom
        (Interpreter.initial.withShell "") = (.ok (.number (.int64 1)), _) := rfl
  exact ⟨wellFormed_withShell "",
    definition_visible (wellFormed_withShell "") (by decide) (.inl (hasShell_withShell ""))
      (.inl rfl) hrun,
    rfl⟩

/-- The shell covers its own functions: a definition of `print` at the prompt gives the value and
goes to the global scope, and `print` is still the function. -/
theorem not_definition_visible :
    let i := Interpreter.initial.withShell ""
    let x := Datum.ofList [.symbol "define", .symbol "print", .number (.int64 5)]
    let run := ((evaluator 2).eval x shellScope).runFrom i
    run.1 = .ok (.number (.int64 5)) ∧
      (((evaluator 2).eval (.symbol "print") shellScope).runFrom run.2).1 =
        .ok (.native (.builtin .print)) :=
  ⟨rfl, rfl⟩

end Evaluation

end Reckoner
