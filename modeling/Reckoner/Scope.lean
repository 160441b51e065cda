import Reckoner.Datum.Basic

/-!
# Scopes

Scopes live in a table and refer to the scope outside them by its place in the table, which is
always an earlier place.  A function shares the scope it was made in, so a later definition there is
seen by the function.

A sealed scope takes no definitions; they go to the nearest scope outside that is not sealed.
-/

namespace Reckoner

/-- The variables of one scope. -/
abbrev Bindings := List (String × Datum)

/-- Give a variable a value. -/
def Bindings.assign (name : String) (value : Datum) : Bindings → Bindings
  | [] => [(name, value)]
  | (other, old) :: rest =>
    if other = name then (name, value) :: rest else (other, old) :: Bindings.assign name value rest

/-- A scope. -/
structure Scope where
  bindings : Bindings := []
  outer : Option ScopeId := none
  /-- Whether definitions pass to the scope outside. -/
  isSealed : Bool := false

/-- The table of scopes. -/
abbrev ScopeTable := Array Scope

namespace ScopeTable

/-- The scopes from one outward, at most as many as there are places up to it. -/
def chainFrom (t : ScopeTable) : Nat → ScopeId → List (ScopeId × Scope)
  | 0, _ => []
  | fuel + 1, id =>
    match t[id]? with
    | none => []
    | some scope =>
      (id, scope) :: match scope.outer with
        | some outer => chainFrom t fuel outer
        | none => []

/-- The scopes that an expression in a scope sees, innermost first. -/
def chain (t : ScopeTable) (id : ScopeId) : List (ScopeId × Scope) := t.chainFrom (id + 1) id

/-- The innermost scope that has a variable. -/
def holder? (t : ScopeTable) (id : ScopeId) (name : String) : Option ScopeId :=
  ((t.chain id).find? fun entry => (entry.2.bindings.lookup name).isSome).map (·.1)

/-- Where a variable is looked up: the innermost scope that has it, or the outermost scope. -/
def readScope? (t : ScopeTable) (id : ScopeId) (name : String) : Option ScopeId :=
  match t.holder? id name with
  | some found => some found
  | none => (t.chain id).getLast?.map (·.1)

/-- The value of a variable. -/
def lookupFrom (t : ScopeTable) (name : String) : Nat → ScopeId → Option Datum
  | 0, _ => none
  | fuel + 1, id =>
    match t[id]? with
    | none => none
    | some scope =>
      match scope.bindings.lookup name with
      | some value => some value
      | none =>
        match scope.outer with
        | some outer => lookupFrom t name fuel outer
        | none => none

/-- The value of a variable as seen from a scope. -/
def lookup (t : ScopeTable) (id : ScopeId) (name : String) : Option Datum :=
  t.lookupFrom name (id + 1) id

/-- The scope that takes definitions made in a scope. -/
def targetFrom (t : ScopeTable) : Nat → ScopeId → ScopeId
  | 0, id => id
  | fuel + 1, id =>
    match t[id]? with
    | none => id
    | some scope =>
      if scope.isSealed then
        match scope.outer with
        | some outer => targetFrom t fuel outer
        | none => id
      else id

/-- The scope that takes definitions made in a scope. -/
def definitionTarget (t : ScopeTable) (id : ScopeId) : ScopeId := t.targetFrom (id + 1) id

/-- Give a variable of a scope a value. -/
def assign (t : ScopeTable) (id : ScopeId) (name : String) (value : Datum) : ScopeTable :=
  t.modify id fun scope => { scope with bindings := scope.bindings.assign name value }

end ScopeTable

end Reckoner
