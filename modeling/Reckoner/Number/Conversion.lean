import Reckoner.Number.Basic
import Reckoner.Number.Error

/-!
# Conversion between kinds

Conversion is exact except into the doubles, which take the nearest one.  A number becomes an
integer only if it is one and fits; only an infinity and not-a-number fail to become a decimal.
-/

namespace Reckoner.Number

/-- The integer that a number is, for the operator that needs it. -/
def requireInteger (operator : String) (n : Number) : Except NumberError Int :=
  match n.integer? with
  | some value => .ok value
  | none => .error (.arithmetic operator (.notInteger n.text))

/-- Convert a number to a kind. -/
def convert (n : Number) (k : Kind) : Except NumberError Number :=
  match k with
  | .int32 => do
    let value ← requireInteger k.name n
    if FitsInt32 value then .ok (.int32 (Int32.ofInt value))
    else .error (.arithmetic k.name (.outOfRange n.text))
  | .int64 => do
    let value ← requireInteger k.name n
    if FitsInt64 value then .ok (.int64 (Int64.ofInt value))
    else .error (.arithmetic k.name (.outOfRange n.text))
  | .float64 => .ok (.float64 n.toBinary64)
  | .bigint => do
    let value ← requireInteger k.name n
    .ok (.bigint value)
  | .decimal =>
    match n.decimal? with
    | some value => .ok (.decimal value)
    | none => .error (.arithmetic k.name .notFinite)

end Reckoner.Number
