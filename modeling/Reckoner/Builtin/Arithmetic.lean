import Reckoner.Datum.Basic
import Reckoner.Fault

/-!
# Builtins on numbers

Arithmetic on many arguments works from left to right, and a single argument is given back as it is.
A comparison of many arguments holds when it holds between neighbours, and stops at the first pair
where it does not.
-/

namespace Reckoner.Builtin

/-- The first argument. -/
def first : List Datum → Except Fault Datum
  | argument :: _ => .ok argument
  | [] => .error (.missing 0 0)

/-- The value of an operation on numbers. -/
def ofNumber (result : Except NumberError Number) : Except Fault Datum :=
  match result with
  | .ok n => .ok (.number n)
  | .error e => .error (.number e)

/-- The value of a relation between numbers. -/
def ofBool (result : Except NumberError Bool) : Except Fault Datum :=
  match result with
  | .ok b => .ok (.bool b)
  | .error e => .error (.number e)

/-- Combine arguments from left to right. -/
def combine (operation : Operand → Operand → Except NumberError Number) :
    List Datum → Except Fault Datum
  | [] => .error (.missing 0 0)
  | start :: rest =>
    rest.foldlM (fun total x => ofNumber (operation total.operand x.operand)) start

/-- Whether a relation holds between all neighbours. -/
def related (relation : Operand → Operand → Except NumberError Bool) :
    List Datum → Except NumberError Bool
  | a :: b :: rest => do
    if ← relation a.operand b.operand then related relation (b :: rest) else return false
  | _ => return true

/-- A relation with its sides exchanged. -/
def flipped {α : Type} (relation : Operand → Operand → α) (a b : Operand) : α := relation b a

/-- An operation on the first argument. -/
def onFirst (operation : Operand → Except NumberError Number) (arguments : List Datum) :
    Except Fault Datum := do
  ofNumber (operation (← first arguments).operand)

/-- A constructor of a kind of numbers: texts are read, everything else is converted. -/
def construct (kind : Kind) (read : String → Except NumberTextFault Number)
    (arguments : List Datum) : Except Fault Datum := do
  match ← first arguments with
  | .text s =>
    match read s with
    | .ok n => ofNumber (n.convert kind)
    | .error f => .error (.unreadable kind f)
  | value => ofNumber (value.operand.convert kind)

/-- Whether a value is of a sort that holds numbers; foreign values do not count. -/
def isNumeric : Datum → Bool
  | .number _ => true
  | .reference _ => true
  | _ => false

/-- The name of the kind of a number. -/
def kindName : Datum → Except Fault Datum
  | .number n => .ok (.text n.kind.name)
  | .reference r => .ok (.text r.target.kind.name)
  | value => .error (.number (.operand "numeric-kind" 0 value.typeName))

end Reckoner.Builtin
