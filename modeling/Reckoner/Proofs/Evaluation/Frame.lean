import Reckoner.Proofs.Evaluation.Evaluator

/-!
# Which variables an evaluation can change

`Framed target i j` says that a scope of `i` is in `j` what it was, except that the variables of
`target` may have changed, and those of the global scope if a file was asked for.

* The layout of scopes.  `Layered` and `HasShell` are what the interpreter keeps about its scopes:
  the global scope takes definitions, a sealed scope lies inside an earlier one, and the shell lies
  inside the global scope.  `DefinesAt` is the walk outward to the scope that takes definitions; in
  such a layout it ends, and it ends at the same scope as long as the scopes are framed.
* The law.  `Evolves.framed` goes by induction on what an evaluation can do.  A call defines in the
  scope that it opens.  A file defines in the global scope, and has been asked for.
* Interpreters without a shell.  Nothing can load a file there: `LoaderFree` is a vocabulary.
-/

namespace Reckoner

open Interpreter

/-! ## The layout of scopes -/

/-- The scope that takes the definitions made in a scope: the first one outward that is not
sealed. -/
inductive ScopeTable.DefinesAt (t : ScopeTable) : ScopeId → ScopeId → Prop where
  | here {id : ScopeId} {scope : Scope} (hscope : t[id]? = some scope)
      (hopen : scope.isSealed = false) : DefinesAt t id id
  | outward {id outer target : ScopeId} {scope : Scope} (hscope : t[id]? = some scope)
      (hsealed : scope.isSealed = true) (houter : scope.outer = some outer)
      (h : DefinesAt t outer target) : DefinesAt t id target

/-- The global scope takes definitions, and a sealed scope lies inside an earlier one. -/
structure ScopeTable.Layered (t : ScopeTable) : Prop where
  global : ∃ scope : Scope, t[globalScope]? = some scope ∧ scope.isSealed = false
  outer : ∀ (id : ℕ) (scope : Scope), t[id]? = some scope → scope.isSealed = true →
    ∃ outer : ℕ, scope.outer = some outer ∧ outer < id

/-- The scope of a shell is there. -/
def ScopeTable.HasShell (t : ScopeTable) : Prop :=
  ∃ scope : Scope, t[shellScope]? = some scope ∧ scope.isSealed = true ∧
    scope.outer = some globalScope

/-- Every scope of one table is in the other, with the same place and the same seal. -/
def ScopeTable.Extends (t u : ScopeTable) : Prop :=
  ∀ (id : ScopeId) (before : Scope), t[id]? = some before →
    ∃ after : Scope, u[id]? = some after ∧ after.outer = before.outer ∧
      after.isSealed = before.isSealed

namespace ScopeTable

variable {t u v : ScopeTable} {id target : ℕ}

theorem getElem?_of_lt (h : id < t.size) : ∃ scope : Scope, t[id]? = some scope :=
  ⟨t[id], Array.getElem?_eq_getElem h⟩

theorem lt_of_getElem? {scope : Scope} (h : t[id]? = some scope) : id < t.size :=
  (Array.getElem?_eq_some_iff.1 h).1

theorem getElem?_push_of_getElem? {scope : Scope} (h : t[id]? = some scope) (last : Scope) :
    (t.push last)[id]? = some scope := by
  have hlt := lt_of_getElem? h
  rw [Array.getElem?_push, if_neg (by omega)]
  exact h

theorem Extends.refl (t : ScopeTable) : t.Extends t := fun _ before h => ⟨before, h, rfl, rfl⟩

theorem Extends.trans (htu : t.Extends u) (huv : u.Extends v) : t.Extends v := by
  intro id before hbefore
  obtain ⟨middle, hmiddle, houter, hsealed⟩ := htu id before hbefore
  obtain ⟨after, hafter, houter', hsealed'⟩ := huv id middle hmiddle
  exact ⟨after, hafter, houter'.trans houter, hsealed'.trans hsealed⟩

theorem Extends.size_le (h : t.Extends u) : t.size ≤ u.size := by
  by_contra hlt
  have hmore : u.size < t.size := by omega
  obtain ⟨scope, hscope⟩ := getElem?_of_lt hmore
  obtain ⟨after, hafter, _⟩ := h _ scope hscope
  exact absurd (lt_of_getElem? hafter) (by omega)

theorem Extends.hasShell (h : t.Extends u) (hshell : t.HasShell) : u.HasShell := by
  obtain ⟨scope, hscope, hsealed, houter⟩ := hshell
  obtain ⟨after, hafter, houter', hsealed'⟩ := h _ scope hscope
  exact ⟨after, hafter, hsealed'.trans hsealed, houter'.trans houter⟩

/-- In a layered table the walk outward ends before the fuel does. -/
theorem definesAt_targetFrom (ht : t.Layered) {fuel : ℕ} (hid : id < t.size) (hfuel : id < fuel) :
    t.DefinesAt id (t.targetFrom fuel id) := by
  induction fuel generalizing id with
  | zero => omega
  | succ fuel ih =>
    obtain ⟨scope, hscope⟩ := getElem?_of_lt hid
    rw [targetFrom, hscope]
    dsimp only
    split
    · rename_i hsealed
      obtain ⟨outer, houter, hlt⟩ := ht.outer id scope hscope hsealed
      rw [houter]
      exact .outward hscope hsealed houter (ih (by omega) (by omega))
    · rename_i hopen
      exact .here hscope (Bool.not_eq_true _ ▸ hopen)

theorem definesAt_definitionTarget (ht : t.Layered) (hid : id < t.size) :
    t.DefinesAt id (t.definitionTarget id) :=
  definesAt_targetFrom ht hid (Nat.lt_succ_self id)

theorem DefinesAt.unique {other : ScopeId} (h : t.DefinesAt id target)
    (h' : t.DefinesAt id other) : target = other := by
  induction h with
  | here hscope hopen =>
    cases h' with
    | here => rfl
    | outward hscope' hsealed =>
      cases hscope.symm.trans hscope'
      rw [hopen] at hsealed
      cases hsealed
  | outward hscope hsealed houter _ ih =>
    cases h' with
    | here hscope' hopen =>
      cases hscope.symm.trans hscope'
      rw [hopen] at hsealed
      cases hsealed
    | outward hscope' _ houter' h' =>
      cases hscope.symm.trans hscope'
      cases houter.symm.trans houter'
      exact ih h'

/-- The walk outward does not depend on variables or on later scopes. -/
theorem DefinesAt.extend (h : t.DefinesAt id target) (hext : t.Extends u) :
    u.DefinesAt id target := by
  induction h with
  | here hscope hopen =>
    obtain ⟨after, hafter, _, hsealed⟩ := hext _ _ hscope
    exact .here hafter (hsealed.trans hopen)
  | outward hscope hsealed houter _ ih =>
    obtain ⟨after, hafter, houter', hsealed'⟩ := hext _ _ hscope
    exact .outward hafter (hsealed'.trans hsealed) (houter'.trans houter) ih

theorem DefinesAt.not_sealed (h : t.DefinesAt id target) {scope : Scope}
    (hscope : t[target]? = some scope) : scope.isSealed = false := by
  induction h with
  | here hfound hopen =>
    cases hfound.symm.trans hscope
    exact hopen
  | outward _ _ _ _ ih => exact ih hscope

theorem extends_push (t : ScopeTable) (scope : Scope) : t.Extends (t.push scope) :=
  fun _ before hbefore => ⟨before, getElem?_push_of_getElem? hbefore scope, rfl, rfl⟩

theorem extends_assign (t : ScopeTable) (target : ScopeId) (name : String) (value : Datum) :
    t.Extends (t.assign target name value) := by
  intro id before hbefore
  rw [getElem?_assign, hbefore]
  split
  · exact ⟨_, rfl, rfl, rfl⟩
  · exact ⟨before, rfl, rfl, rfl⟩

theorem Layered.push (ht : t.Layered) {scope : Scope}
    (hscope : scope.isSealed = true → ∃ outer : ℕ, scope.outer = some outer ∧ outer < t.size) :
    ScopeTable.Layered (t.push scope) := by
  constructor
  · obtain ⟨first, hfirst, hopen⟩ := ht.global
    obtain ⟨after, hafter, _, hsealed⟩ := extends_push t scope _ _ hfirst
    exact ⟨after, hafter, hsealed.trans hopen⟩
  · intro id found hfound hsealed
    rw [Array.getElem?_push] at hfound
    split at hfound
    · rename_i heq
      cases hfound
      rw [heq]
      exact hscope hsealed
    · exact ht.outer id found hfound hsealed

theorem Layered.assign (ht : t.Layered) (target : ScopeId) (name : String) (value : Datum) :
    (t.assign target name value).Layered := by
  constructor
  · obtain ⟨first, hfirst, hopen⟩ := ht.global
    obtain ⟨after, hafter, _, hsealed⟩ := extends_assign t target name value _ _ hfirst
    exact ⟨after, hafter, hsealed.trans hopen⟩
  · intro id found hfound hsealed
    rw [getElem?_assign] at hfound
    split at hfound
    · obtain ⟨old, hold, rfl⟩ := Option.map_eq_some_iff.1 hfound
      exact ht.outer id old hold hsealed
    · exact ht.outer id found hfound hsealed

/-- A script defines in the global scope. -/
theorem definesAt_scriptScope (ht : t.Layered) (hshell : t.HasShell) (folder file : String) :
    ScopeTable.DefinesAt (t.push (Evaluation.scriptScope folder file)) t.size globalScope := by
  obtain ⟨first, hfirst, hopen⟩ := ht.global
  obtain ⟨shell, hscope, hsealed, houter⟩ := hshell
  have hwalk : t.DefinesAt shellScope globalScope :=
    .outward hscope hsealed houter (.here hfirst hopen)
  exact .outward Array.getElem?_push_size rfl rfl (hwalk.extend (extends_push t _))

end ScopeTable

/-! ## The frame law of evolution -/

/-- Names are only added, so a list that grew in one part has grown on the whole. -/
theorem ne_of_suffixes {a b c : List String} (hab : a <:+ b) (hbc : b <:+ c) (h : a ≠ b ∨ b ≠ c) :
    c ≠ a := by
  intro heq
  have hlength := hbc.length_le
  rw [heq] at hlength
  have hsame : a = b := hab.eq_of_length_le hlength
  exact h.elim (· hsame) (· (hsame.symm.trans heq.symm))

/-- The scopes of `i` are in `j` what they were, except for the variables of a target and, if a file
was asked for, of the global scope. -/
structure Framed (target : Option ScopeId) (i j : Interpreter) : Prop where
  requested : i.requested <:+ j.requested
  scopes : i.scopes.Extends j.scopes
  bindings : ∀ (id : ScopeId) (before after : Scope), i.scopes[id]? = some before →
    j.scopes[id]? = some after →
    after.bindings = before.bindings ∨ target = some id ∨
      id = globalScope ∧ j.requested ≠ i.requested

namespace Framed

variable {target : Option ScopeId} {i j k : Interpreter}

theorem of_scopes_eq (hscopes : j.scopes = i.scopes) (hrequested : i.requested <:+ j.requested) :
    Framed target i j := by
  refine ⟨hrequested, ?_, ?_⟩
  · rw [hscopes]
    exact .refl i.scopes
  · intro id before after hbefore hafter
    rw [hscopes] at hafter
    cases hbefore.symm.trans hafter
    exact .inl rfl

theorem trans (hij : Framed target i j) (hjk : Framed target j k) : Framed target i k := by
  refine ⟨hij.requested.trans hjk.requested, hij.scopes.trans hjk.scopes, ?_⟩
  intro id before after hbefore hafter
  obtain ⟨middle, hmiddle, _⟩ := hij.scopes id before hbefore
  rcases hij.bindings id before middle hbefore hmiddle with hsame | htarget | ⟨hglobal, hnew⟩
  · rcases hjk.bindings id middle after hmiddle hafter with hsame' | htarget | ⟨hglobal, hnew⟩
    · exact .inl (hsame'.trans hsame)
    · exact .inr (.inl htarget)
    · exact .inr (.inr ⟨hglobal, ne_of_suffixes hij.requested hjk.requested (.inr hnew.symm)⟩)
  · exact .inr (.inl htarget)
  · exact .inr (.inr ⟨hglobal, ne_of_suffixes hij.requested hjk.requested (.inl hnew.symm)⟩)

/-- What happens after a scope is opened, with definitions that go to another place, frames every
scope that was there before. -/
theorem of_push {opened : Interpreter} {scope : Scope} {place : ℕ}
    (h : Framed (some place) opened j) (hscopes : opened.scopes = i.scopes.push scope)
    (hrequested : i.requested <:+ opened.requested)
    (hplace : place = i.scopes.size ∨ place = globalScope ∧ opened.requested ≠ i.requested) :
    Framed target i j := by
  have hpush : i.scopes.Extends opened.scopes := hscopes ▸ ScopeTable.extends_push i.scopes scope
  refine ⟨hrequested.trans h.requested, hpush.trans h.scopes, ?_⟩
  intro id before after hbefore hafter
  have hlt := ScopeTable.lt_of_getElem? hbefore
  have hmiddle : opened.scopes[id]? = some before :=
    hscopes ▸ ScopeTable.getElem?_push_of_getElem? hbefore scope
  rcases h.bindings id before after hmiddle hafter with hsame | htarget | ⟨hglobal, hasked⟩
  · exact .inl hsame
  · cases htarget
    rcases hplace with rfl | ⟨rfl, hasked⟩
    · omega
    · exact .inr (.inr ⟨rfl, ne_of_suffixes hrequested h.requested (.inl hasked.symm)⟩)
  · exact .inr (.inr ⟨hglobal, ne_of_suffixes hrequested h.requested (.inr hasked.symm)⟩)

end Framed

/-- The frame law: an evolution defines at its target, and elsewhere only through files. -/
theorem Evolves.framed {v : Vocabulary} {target : Option ScopeId} {i j : Interpreter}
    (h : Evolves v target i j) (ht : i.scopes.Layered) (hshell : v.loads → i.scopes.HasShell)
    (htarget : ∀ scope : ℕ, target = some scope → scope < i.scopes.size) :
    Framed (target.map i.scopes.definitionTarget) i j ∧ j.scopes.Layered := by
  induction h with
  | refl i => exact ⟨.of_scopes_eq rfl List.suffix_rfl, ht⟩
  | trans hij _ ihij ihjk =>
    rename_i target i j k _
    obtain ⟨hframed, hlayered⟩ := ihij ht hshell htarget
    have hlater : ∀ scope : ℕ, target = some scope → scope < j.scopes.size := fun scope hscope =>
      (htarget scope hscope).trans_le hframed.scopes.size_le
    obtain ⟨hframed', hlayered'⟩ :=
      ihjk hlayered (fun hloads => hframed.scopes.hasShell (hshell hloads)) hlater
    have hsame : target.map j.scopes.definitionTarget = target.map i.scopes.definitionTarget := by
      cases target with
      | none => rfl
      | some scope =>
        have hbefore := ScopeTable.definesAt_definitionTarget ht (htarget scope rfl)
        have hafter := ScopeTable.definesAt_definitionTarget hlayered (hlater scope rfl)
        exact congrArg some (hafter.unique (hbefore.extend hframed.scopes))
    rw [hsame] at hframed'
    exact ⟨hframed.trans hframed', hlayered'⟩
  | quiet h =>
    rw [h.scopes]
    exact ⟨.of_scopes_eq h.scopes (by rw [h.requested]), ht⟩
  | define i scope name _ =>
    refine ⟨⟨List.suffix_rfl, ScopeTable.extends_assign _ _ _ _, ?_⟩, ht.assign _ _ _⟩
    intro id before after hbefore hafter
    rw [Interpreter.define, ScopeTable.getElem?_assign, hbefore] at hafter
    split at hafter
    · rename_i heq
      exact .inr (.inl (congrArg some heq))
    · cases hafter
      exact .inl rfl
  | call _ _ ih =>
    rename_i target i j bindings outer _ _
    have hopened : (i.openCall bindings outer).scopes.Layered :=
      ht.push fun hsealed => by cases hsealed
    have hsize : i.scopes.size < (i.openCall bindings outer).scopes.size := by
      rw [Interpreter.openCall, Array.size_push]
      omega
    obtain ⟨hframed, hlayered⟩ := ih hopened
      (fun hloads => (ScopeTable.extends_push _ _).hasShell (hshell hloads))
      (fun scope hscope => Option.some.inj hscope ▸ hsize)
    have hplace := (ScopeTable.definesAt_definitionTarget hopened hsize).unique
      (.here Array.getElem?_push_size rfl)
    rw [Option.map_some, hplace] at hframed
    exact ⟨hframed.of_push rfl List.suffix_rfl (.inl rfl), hlayered⟩
  | request i file _ => exact ⟨.of_scopes_eq rfl (List.suffix_cons _ _), ht⟩
  | load hloads _ ih =>
    rename_i target i j folder file _
    have hshell := hshell hloads
    obtain ⟨shell, hscope, _⟩ := id hshell
    have hopened : ((i.request file).openScript folder file).scopes.Layered :=
      ht.push fun _ => ⟨shellScope, rfl, ScopeTable.lt_of_getElem? hscope⟩
    have hsize : i.scopes.size < ((i.request file).openScript folder file).scopes.size := by
      rw [Interpreter.openScript, Array.size_push]
      exact Nat.lt_succ_self _
    obtain ⟨hframed, hlayered⟩ := ih hopened
      (fun _ => (ScopeTable.extends_push _ _).hasShell hshell)
      (fun scope hscope => Option.some.inj hscope ▸ hsize)
    have hplace := (ScopeTable.definesAt_definitionTarget hopened hsize).unique
      (ScopeTable.definesAt_scriptScope ht hshell folder file)
    rw [Option.map_some, hplace] at hframed
    exact ⟨hframed.of_push rfl (List.suffix_cons _ _)
      (.inr ⟨rfl, List.cons_ne_self _ _⟩), hlayered⟩

/-! ## Interpreters without a shell -/

/-- Data without functions that load files. -/
inductive Datum.LoaderFree : Datum → Prop where
  | nil : LoaderFree .nil
  | bool (b : Bool) : LoaderFree (.bool b)
  | text (text : String) : LoaderFree (.text text)
  | symbol (name : String) : LoaderFree (.symbol name)
  | number (n : Number) : LoaderFree (.number n)
  | list (position : Option Position) {items : List Datum} (h : ∀ item ∈ items, LoaderFree item) :
      LoaderFree (.list position items)
  | closure {parameters body : Datum} (scope : ScopeId) (hparameters : LoaderFree parameters)
      (hbody : LoaderFree body) : LoaderFree (.closure parameters body scope)
  | native {f : Native} (h : f.isLoader = false) : LoaderFree (.native f)
  | reference (r : Reference) : LoaderFree (.reference r)
  | host (h : Host) : LoaderFree (.host h)

theorem Datum.LoaderFree.erase {datum : Datum} (h : datum.LoaderFree) : datum.erase.LoaderFree := by
  induction h with
  | list position _ ih =>
    rw [Datum.erase, Datum.eraseAll_eq_map]
    apply LoaderFree.list
    intro item hitem
    obtain ⟨inner, hinner, rfl⟩ := List.mem_map.1 hitem
    exact ih inner hinner
  | nil => simpa [Datum.erase] using LoaderFree.nil
  | bool b => simpa [Datum.erase] using LoaderFree.bool b
  | text text => simpa [Datum.erase] using LoaderFree.text text
  | symbol name => simpa [Datum.erase] using LoaderFree.symbol name
  | number n => simpa [Datum.erase] using LoaderFree.number n
  | closure scope hparameters hbody =>
    simpa [Datum.erase] using LoaderFree.closure scope hparameters hbody
  | native h => simpa [Datum.erase] using LoaderFree.native h
  | reference r => simpa [Datum.erase] using LoaderFree.reference r
  | host h => simpa [Datum.erase] using LoaderFree.host h

theorem Datum.Plain.loaderFree {datum : Datum} (h : datum.Plain) : datum.LoaderFree := by
  induction h with
  | nil => exact .nil
  | atom h =>
    cases h with
    | symbol _ => exact .symbol _
    | text text => exact .text text
    | number _ => exact .number _
  | list position _ ih => exact .list position ih

/-- All data without functions that load files. -/
def Vocabulary.loaderFree : Vocabulary where
  code := Datum.LoaderFree
  value := Datum.LoaderFree
  loads := False
  value_nil := .nil
  value_bool := .bool
  value_text := .text
  value_symbol := .symbol
  value_number := .number
  value_list := .list none
  value_erase := Datum.LoaderFree.erase
  value_closure scope hparameters hbody := .closure scope hparameters.erase hbody
  value_loader h := h.elim
  code_plain := Datum.Plain.loaderFree
  code_item := by
    rintro _ _ item hlist hitem
    cases hlist with
    | list _ h => exact h item hitem
  code_body := by
    rintro _ _ _ hclosure
    cases hclosure with
    | closure _ _ hbody => exact hbody
  loads_of_loader := by
    rintro f h hloader
    cases h with
    | native h =>
      rw [h] at hloader
      cases hloader

/-! ## The frame law of evaluation -/

/-- The scopes of an interpreter are laid out in order, and files are loaded with a shell only. -/
structure Interpreter.WellFormed (i : Interpreter) : Prop where
  layered : i.scopes.Layered
  loaders : i.scopes.HasShell ∨ Vocabulary.loaderFree.Holds i

/-- What may stand in code and among arguments: without a shell, no function that loads files. -/
def Interpreter.Admits (i : Interpreter) (datum : Datum) : Prop :=
  i.scopes.HasShell ∨ datum.LoaderFree

/-- The vocabulary of an interpreter. -/
theorem Interpreter.WellFormed.exists_vocabulary {i : Interpreter} (h : i.WellFormed) :
    ∃ v : Vocabulary, v.Holds i ∧ (v.loads → i.scopes.HasShell) ∧
      (∀ datum, i.Admits datum → v.code datum ∧ v.value datum) ∧
      ∀ j, i.scopes.Extends j.scopes → j.scopes.Layered → v.Holds j → j.WellFormed := by
  by_cases hshell : i.scopes.HasShell
  · refine ⟨.everything, ?_, fun _ => hshell, ?_, ?_⟩
    · exact fun _ _ _ _ _ _ => trivial
    · exact fun _ _ => ⟨trivial, trivial⟩
    · exact fun j hextends hlayered _ => ⟨hlayered, .inl (hextends.hasShell hshell)⟩
  · refine ⟨.loaderFree, h.loaders.resolve_left hshell, False.elim, ?_, ?_⟩
    · intro datum hdatum
      have hfree := hdatum.resolve_left hshell
      exact ⟨hfree, hfree⟩
    · exact fun j _ hlayered hholds => ⟨hlayered, .inr hholds⟩

/-- Sealed scopes are exactly what they were. -/
def Interpreter.KeepsSealed (i j : Interpreter) : Prop :=
  ∀ (id : ScopeId) (scope : Scope), i.scopes[id]? = some scope → scope.isSealed = true →
    j.scopes[id]? = some scope

theorem Framed.keepsSealed {i j : Interpreter} {target : Option ScopeId} (h : Framed target i j)
    (ht : i.scopes.Layered)
    (htarget : ∀ id scope, target = some id → i.scopes[id]? = some scope → scope.isSealed = false) :
    i.KeepsSealed j := by
  intro id before hbefore hsealed
  obtain ⟨after, hafter, houter, hsealed'⟩ := h.scopes id before hbefore
  have hbindings : after.bindings = before.bindings := by
    rcases h.bindings id before after hbefore hafter with hsame | heq | ⟨rfl, _⟩
    · exact hsame
    · rw [htarget id before heq hbefore] at hsealed
      cases hsealed
    · obtain ⟨first, hfirst, hopen⟩ := ht.global
      cases hfirst.symm.trans hbefore
      rw [hopen] at hsealed
      cases hsealed
  have heq : after = before := by
    cases after
    cases before
    simp only at houter hsealed' hbindings
    subst houter hsealed' hbindings
    rfl
  rw [hafter, heq]

/-- The frame law of evaluation.  Whatever the outcome, evaluating an expression in a scope changes
the variables of no scope that was there before, except for the scope that takes its definitions
and, only if a file was asked for, the global scope.  Applying a function has no such scope.  Sealed
scopes never change, and the interpreter stays well formed.  (A file is asked for only by the
functions that import and watch files.) -/
theorem Evaluation.frame_law {i : Interpreter} (h : i.WellFormed) (depth : ℕ) :
    (∀ (x : Datum) (scope : ScopeId), i.Admits x → scope < i.scopes.size →
      let j := (((evaluator depth).eval x scope).runFrom i).2
      (∃ target, i.scopes.DefinesAt scope target ∧ Framed (some target) i j) ∧
        i.KeepsSealed j ∧ j.WellFormed) ∧
    ∀ (f : Datum) (arguments : List Datum), i.Admits f → (∀ a ∈ arguments, i.Admits a) →
      let j := (((evaluator depth).apply f arguments).runFrom i).2
      Framed none i j ∧ i.KeepsSealed j ∧ j.WellFormed := by
  obtain ⟨v, hholds, hshell, hadmits, hwell⟩ := h.exists_vocabulary
  have hobeys := evaluator_obeys v depth
  constructor
  · intro x scope hx hscope j
    have hevolves := (hobeys.eval hholds (hadmits x hx).1 scope).1
    obtain ⟨hframed, hlayered⟩ := hevolves.framed h.layered hshell
      fun other heq => Option.some.inj heq ▸ hscope
    have htarget := ScopeTable.definesAt_definitionTarget h.layered hscope
    refine ⟨⟨_, htarget, hframed⟩, hframed.keepsSealed h.layered ?_,
      hwell j hframed.scopes hlayered (hevolves.holds hholds)⟩
    intro id found heq hfound
    cases heq
    exact htarget.not_sealed hfound
  · intro f arguments hf hargs j
    have hevolves := (hobeys.apply hholds (hadmits f hf).2 fun a ha => (hadmits a (hargs a ha)).2).1
    obtain ⟨hframed, hlayered⟩ := hevolves.framed h.layered hshell (by simp)
    exact ⟨hframed, hframed.keepsSealed h.layered (by simp),
      hwell j hframed.scopes hlayered (hevolves.holds hholds)⟩

/-! ## Interpreters as they start -/

theorem isLoader_standard :
    Catalogue.standard.byName.all (fun entry => entry.2.function.all (!·.isLoader)) = true := by
  decide +kernel

theorem loaderFree_initial : Vocabulary.loaderFree.Holds .initial := by
  intro id scope hscope name value hmem
  obtain rfl : scope = _ := (Array.mem_singleton.1 (Array.mem_of_getElem? hscope))
  rcases List.mem_cons.1 hmem with heq | hmem
  · cases heq
    exact .bool true
  rcases List.mem_cons.1 hmem with heq | hmem
  · cases heq
    exact .bool false
  obtain ⟨⟨other, d⟩, hentry, hbinding⟩ := List.mem_filterMap.1 hmem
  obtain ⟨f, hf, heq⟩ := Option.map_eq_some_iff.1 hbinding
  cases heq
  have hall := List.all_eq_true.1 isLoader_standard _ (List.mem_reverse.1 hentry)
  rw [hf, Option.all_some, Bool.not_eq_true'] at hall
  exact .native hall

theorem wellFormed_initial : Interpreter.initial.WellFormed := by
  refine ⟨⟨⟨_, rfl, rfl⟩, ?_⟩, .inr loaderFree_initial⟩
  intro id scope hscope hsealed
  obtain rfl : scope = _ := (Array.mem_singleton.1 (Array.mem_of_getElem? hscope))
  cases hsealed

theorem hasShell_withShell (folder : String) :
    (Interpreter.initial.withShell folder).scopes.HasShell := ⟨_, rfl, rfl, rfl⟩

theorem wellFormed_withShell (folder : String) :
    (Interpreter.initial.withShell folder).WellFormed :=
  ⟨wellFormed_initial.layered.push fun _ => ⟨globalScope, rfl, Nat.zero_lt_one⟩,
    .inl (hasShell_withShell folder)⟩

theorem Evaluation.frame_law_shell :
    (Interpreter.initial.withShell "").WellFormed ∧
      (let x := Datum.ofList [.symbol "define", .symbol "x", .number (.int64 1)]
      let i := Interpreter.initial.withShell ""
      let j := (((evaluator 3).eval x shellScope).runFrom i).2
      (∃ target, i.scopes.DefinesAt shellScope target ∧ Framed (some target) i j) ∧
        i.KeepsSealed j ∧ j.WellFormed) :=
  ⟨wellFormed_withShell "",
    (Evaluation.frame_law (wellFormed_withShell "") 3).1 _ shellScope
      (.inl (hasShell_withShell "")) (by decide)⟩

end Reckoner
