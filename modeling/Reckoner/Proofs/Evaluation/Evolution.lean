import Reckoner.Evaluation
import Reckoner.Proofs.Action
import Reckoner.Proofs.Reader

/-!
# What an evaluation can do to the state

`Evolves v target i j` lists everything that an evaluation can do: print, trace and change settings
(`Quiet`), give a variable a value in the scope that takes the definitions of `target`, open a scope
for a call and evaluate there, ask for a file, and open a scope for a file and evaluate there.  An
invariant of evaluation is proved by induction on it.

A `Vocabulary` says which data code may hold and which data may be values, and whether files may be
loaded.  It is closed under what evaluation does with data.
-/

namespace Reckoner

/-- Whether a native function loads files. -/
def Native.isLoader : Native → Bool
  | .importFile .. => true
  | .watchFile .. => true
  | _ => false

/-- The data of code and the data of values, closed under evaluation. -/
structure Vocabulary where
  code : Datum → Prop
  value : Datum → Prop
  /-- Whether files may be loaded. -/
  loads : Prop
  value_nil : value .nil
  value_bool (b : Bool) : value (.bool b)
  value_text (text : String) : value (.text text)
  value_symbol (name : String) : value (.symbol name)
  value_number (n : Number) : value (.number n)
  value_list {items : List Datum} : (∀ item ∈ items, value item) → value (.ofList items)
  value_erase {datum : Datum} : code datum → value datum.erase
  value_closure {parameters body : Datum} (scope : ScopeId) :
    code parameters → code body → value (.closure parameters.erase body scope)
  value_loader {f : Native} : loads → f.isLoader = true → value (.native f)
  code_plain {datum : Datum} : datum.Plain → code datum
  code_item {position : Option Position} {items : List Datum} {item : Datum} :
    code (.list position items) → item ∈ items → code item
  code_body {parameters body : Datum} {scope : ScopeId} :
    value (.closure parameters body scope) → code body
  loads_of_loader {f : Native} : value (.native f) → f.isLoader = true → loads

namespace Vocabulary

/-- All data, with files. -/
def everything : Vocabulary where
  code _ := True
  value _ := True
  loads := True
  value_nil := trivial
  value_bool _ := trivial
  value_text _ := trivial
  value_symbol _ := trivial
  value_number _ := trivial
  value_list _ := trivial
  value_erase _ := trivial
  value_closure _ _ _ := trivial
  value_loader _ _ := trivial
  code_plain _ := trivial
  code_item _ _ := trivial
  code_body _ := trivial
  loads_of_loader _ _ := trivial

variable (v : Vocabulary)

/-- Bindings whose values are in the vocabulary. -/
def HoldsOf (bindings : Bindings) : Prop := ∀ name value, (name, value) ∈ bindings → v.value value

/-- Every variable has a value that is in the vocabulary. -/
def Holds (i : Interpreter) : Prop :=
  ∀ (id : ScopeId) (scope : Scope), i.scopes[id]? = some scope → v.HoldsOf scope.bindings

end Vocabulary

/-! ## Variables -/

theorem Bindings.mem_assign {bindings : Bindings} {name other : String} {value old : Datum}
    (h : (other, old) ∈ bindings.assign name value) :
    (other, old) = (name, value) ∨ (other, old) ∈ bindings := by
  induction bindings with
  | nil => exact .inl (List.mem_singleton.1 h)
  | cons binding rest ih =>
    rw [Bindings.assign] at h
    split at h
    · rcases List.mem_cons.1 h with heq | h
      · exact .inl heq
      · exact .inr (List.mem_cons_of_mem _ h)
    · rcases List.mem_cons.1 h with heq | h
      · exact .inr (heq ▸ List.mem_cons_self)
      · exact (ih h).imp id (List.mem_cons_of_mem _)

theorem Vocabulary.HoldsOf.assign {v : Vocabulary} {bindings : Bindings} (h : v.HoldsOf bindings)
    (name : String) {value : Datum} (hvalue : v.value value) :
    v.HoldsOf (bindings.assign name value) := by
  intro other old hmem
  rcases Bindings.mem_assign hmem with heq | hmem
  · cases heq
    exact hvalue
  · exact h other old hmem

theorem ScopeTable.getElem?_assign (t : ScopeTable) (target id : ScopeId) (name : String)
    (value : Datum) :
    (t.assign target name value)[id]? = if target = id then
      t[id]?.map fun scope => { scope with bindings := scope.bindings.assign name value }
      else t[id]? :=
  Array.getElem?_modify

theorem mem_of_lookup {α β : Type} [BEq α] [LawfulBEq α] {entries : List (α × β)} {key : α}
    {value : β} (h : entries.lookup key = some value) : (key, value) ∈ entries := by
  obtain ⟨front, back, rfl, -⟩ := List.lookup_eq_some_iff.1 h
  exact List.mem_append_right front List.mem_cons_self

/-- A variable that is found is bound in some scope. -/
theorem ScopeTable.mem_of_lookupFrom {t : ScopeTable} {name : String} {value : Datum} {fuel : ℕ}
    {id : ScopeId} (h : t.lookupFrom name fuel id = some value) :
    ∃ (found : ScopeId) (scope : Scope), t[found]? = some scope ∧
      (name, value) ∈ scope.bindings := by
  induction fuel generalizing id with
  | zero => cases h
  | succ fuel ih =>
    rw [lookupFrom] at h
    cases hscope : t[id]? with
    | none =>
      rw [hscope] at h
      cases h
    | some scope =>
      simp only [hscope] at h
      cases hlookup : scope.bindings.lookup name with
      | some found =>
        simp only [hlookup] at h
        cases h
        exact ⟨id, scope, hscope, mem_of_lookup hlookup⟩
      | none =>
        simp only [hlookup] at h
        cases houter : scope.outer with
        | none =>
          rw [houter] at h
          cases h
        | some outer =>
          rw [houter] at h
          exact ih h

/-! ## Evolution -/

/-- Scopes, catalogue and files asked for stay as they are. -/
structure Interpreter.Quiet (i j : Interpreter) : Prop where
  scopes : j.scopes = i.scopes
  catalogue : j.catalogue = i.catalogue
  requested : j.requested = i.requested

/-- A call opens a scope for its variables. -/
def Interpreter.openCall (i : Interpreter) (bindings : Bindings) (outer : ScopeId) : Interpreter :=
  { i with scopes := i.scopes.push { bindings, outer := some outer } }

/-- Asking for a file notes its name. -/
def Interpreter.request (i : Interpreter) (file : String) : Interpreter :=
  { i with requested := file :: i.requested }

/-- A file gets a scope of its own. -/
def Interpreter.openScript (i : Interpreter) (folder file : String) : Interpreter :=
  { i with scopes := i.scopes.push (Evaluation.scriptScope folder file) }

/-- A definition goes to the scope that takes the definitions of a scope. -/
def Interpreter.define (i : Interpreter) (scope : ScopeId) (name : String) (value : Datum) :
    Interpreter :=
  { i with scopes := i.scopes.assign (i.scopes.definitionTarget scope) name value }

open Interpreter (Quiet)

/-- What an evaluation can do to the state.  Without a target there are no definitions outside the
scopes that it opens itself. -/
inductive Evolves (v : Vocabulary) : Option ScopeId → Interpreter → Interpreter → Prop where
  | refl {target : Option ScopeId} (i : Interpreter) : Evolves v target i i
  | trans {target : Option ScopeId} {i j k : Interpreter} (hij : Evolves v target i j)
      (hjk : Evolves v target j k) : Evolves v target i k
  | quiet {target : Option ScopeId} {i j : Interpreter} (h : Quiet i j) : Evolves v target i j
  | define (i : Interpreter) (scope : ScopeId) (name : String) {value : Datum}
      (hvalue : v.value value) : Evolves v (some scope) i (i.define scope name value)
  | call {target : Option ScopeId} {i j : Interpreter} {bindings : Bindings} {outer : ScopeId}
      (hbindings : v.HoldsOf bindings)
      (h : Evolves v (some i.scopes.size) (i.openCall bindings outer) j) : Evolves v target i j
  | request {target : Option ScopeId} (i : Interpreter) (file : String) (hloads : v.loads) :
      Evolves v target i (i.request file)
  | load {target : Option ScopeId} {i j : Interpreter} {folder file : String} (hloads : v.loads)
      (h : Evolves v (some i.scopes.size) ((i.request file).openScript folder file) j) :
      Evolves v target i j

namespace Evolves

variable {v : Vocabulary} {target : Option ScopeId} {i j : Interpreter}

instance : IsPreorder Interpreter (Evolves v target) where
  refl := .refl
  trans _ _ _ := .trans

/-- What leaves no definition outside may happen anywhere. -/
theorem widen (h : Evolves v none i j) (target : Option ScopeId) : Evolves v target i j := by
  generalize hnone : (none : Option ScopeId) = start at h
  induction h with
  | refl i => exact .refl i
  | trans _ _ ihij ihjk => exact (ihij hnone).trans (ihjk hnone)
  | quiet h => exact .quiet h
  | define => cases hnone
  | call hbindings h _ => exact .call hbindings h
  | request i file hloads => exact .request i file hloads
  | load hloads h _ => exact .load hloads h

theorem catalogue_eq (h : Evolves v target i j) : j.catalogue = i.catalogue := by
  induction h with
  | refl => rfl
  | trans _ _ ihij ihjk => exact ihjk.trans ihij
  | quiet h => exact h.catalogue
  | define => rfl
  | call _ _ ih => exact ih
  | request => rfl
  | load _ _ ih => exact ih

theorem holds_push {scope : Scope} (h : v.Holds i)
    (hscopes : j.scopes = i.scopes.push scope) (hscope : v.HoldsOf scope.bindings) : v.Holds j := by
  intro id found hfound
  rw [hscopes, Array.getElem?_push] at hfound
  split at hfound
  · cases hfound
    exact hscope
  · exact h id found hfound

theorem holdsOf_scriptScope (hloads : v.loads) (folder file : String) :
    v.HoldsOf (Evaluation.scriptScope folder file).bindings := by
  intro name value hmem
  simp only [Evaluation.scriptScope, List.mem_cons, List.not_mem_nil, or_false,
    Prod.mk.injEq] at hmem
  rcases hmem with ⟨_, rfl⟩ | ⟨_, rfl⟩ | ⟨_, rfl⟩ | ⟨_, rfl⟩
  · exact v.value_text _
  · exact v.value_text _
  · exact v.value_loader hloads rfl
  · exact v.value_loader hloads rfl

/-- The vocabulary of the variables stays. -/
theorem holds (h : Evolves v target i j) (hi : v.Holds i) : v.Holds j := by
  induction h with
  | refl => exact hi
  | trans _ _ ihij ihjk => exact ihjk (ihij hi)
  | quiet h =>
    unfold Vocabulary.Holds
    rw [h.scopes]
    exact hi
  | define i scope name hvalue =>
    intro id found hfound
    rw [Interpreter.define, ScopeTable.getElem?_assign] at hfound
    split at hfound
    · obtain ⟨old, hold, rfl⟩ := Option.map_eq_some_iff.1 hfound
      exact (hi id old hold).assign name hvalue
    · exact hi id found hfound
  | call hbindings _ ih => exact ih (holds_push hi rfl hbindings)
  | request => exact hi
  | load hloads _ ih => exact ih (holds_push hi rfl (holdsOf_scriptScope hloads _ _))

end Evolves

end Reckoner
