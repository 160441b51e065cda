import Reckoner.Native
import Reckoner.Number.Operand
import Reckoner.Position

/-!
# Data of the language

Code and values are the same data.  A list that was read from a text carries its position; a list
that a program computed, and all quoted data, carries none.  `erase` removes the positions of code,
which is how quoting turns code into data.

Two constructors are only reached by an embedding program: `reference`, a number held by reference,
which counts as a number everywhere, and `host`, any other foreign value, which counts as a number
only for arithmetic and only if it denotes one.  A reference that is empty is an operand, but no
datum: it cannot be printed.
-/

namespace Reckoner

/-- The place of a scope in the interpreter's table of scopes. -/
abbrev ScopeId := Nat

/-- A value of the embedding program. -/
structure Host where
  typeName : String
  text : String
  number : Option Number

/-- A place of the embedding program for a number. -/
structure Reference where
  typeName : String
  target : Number

/-- The text of the number in a place. -/
def Reference.text (r : Reference) : String := r.target.text

/-- A value, or a piece of code. -/
inductive Datum where
  | nil
  | bool (b : Bool)
  | text (s : String)
  | symbol (name : String)
  | number (n : Number)
  | list (position : Option Position) (items : List Datum)
  /-- A function with its parameters, its body and the scope it was made in. -/
  | closure (parameters body : Datum) (scope : ScopeId)
  | native (f : Native)
  | reference (r : Reference)
  | host (h : Host)

namespace Datum

instance : Inhabited Datum := ⟨.nil⟩

/-- A list without a position. -/
abbrev ofList (items : List Datum) : Datum := .list none items

mutual

/-- The same code without positions.  The body of a function keeps its positions. -/
def erase : Datum → Datum
  | .list _ items => .list none (eraseAll items)
  | datum => datum

/-- Remove the positions from every item. -/
def eraseAll : List Datum → List Datum
  | [] => []
  | item :: rest => erase item :: eraseAll rest

end

theorem eraseAll_eq_map (items : List Datum) : eraseAll items = items.map erase := by
  induction items with
  | nil => rfl
  | cons item rest ih => simp [eraseAll, ih]

/-- The name of the type of a value, as messages about operands show it. -/
def typeName : Datum → String
  | .nil => "nil"
  | .bool _ => "bool"
  | .text _ => "string"
  | .symbol _ => "scm.Symbol"
  | .number n => n.kind.typeName
  | .list .. => "[]scm.Scmer"
  | .closure .. => "scm.Proc"
  | .native _ => "func(...scm.Scmer) scm.Scmer"
  | .reference r => r.typeName
  | .host h => h.typeName

/-- The number that a value denotes for arithmetic. -/
def number? : Datum → Option Number
  | .number n => some n
  | .reference r => some r.target
  | .host h => h.number
  | _ => none

/-- A value as arithmetic sees it. -/
def operand (datum : Datum) : Operand :=
  match datum.number? with
  | some n => .number n
  | none => .other datum.typeName

/-- The number of a value is the number that arithmetic accepts it as. -/
theorem number?_operand (datum : Datum) : datum.operand.number? = datum.number? := by
  unfold operand
  cases datum.number? <;> rfl

/-- Whether a value counts as true: everything except nil, false, the empty text, the empty list and
numbers equal to zero. -/
def truthy : Datum → Bool
  | .nil => false
  | .bool b => b
  | .text s => s != ""
  | .list _ items => !items.isEmpty
  | .number n => !n.equal (.int64 0)
  | .reference r => !r.target.equal (.int64 0)
  | _ => true

end Datum

end Reckoner
