import Reckoner.Number.Arithmetic

/-!
# Comparison across kinds

Numbers are compared by value: a double, a decimal and an integer that denote the same number are
equal.  An infinity lies beyond every exact number however large, and not-a-number is related to
nothing.  A machine integer meets a double as a double.
-/

namespace Reckoner

/-- The order of two numbers of one kind. -/
def Aligned.order : Aligned → Option Ordering
  | .int32 a b => some (compare a.toInt b.toInt)
  | .int64 a b => some (compare a.toInt b.toInt)
  | .float64 a b => a.compare b
  | .bigint a b => some (compare a b)
  | .decimal a b => some (a.compare b)

namespace Number

/-- What stands for a number next to an infinity or not-a-number: the double itself, and zero for
everything finite. -/
def standIn : Number → Binary64
  | .float64 x => if x.isFinite then Binary64.zero false else x
  | _ => Binary64.zero false

/-- The order of two numbers by value; there is none when either is not-a-number. -/
def order (a b : Number) : Option Ordering :=
  match align? a b with
  | some aligned => aligned.order
  | none => a.standIn.compare b.standIn

/-- Equality by value. -/
def equal (a b : Number) : Bool := a.order b == some .eq

/-- Strictly less by value. -/
def less (a b : Number) : Bool := a.order b == some .lt

/-- Less or equal by value. -/
def lessEqual (a b : Number) : Bool := a.less b || a.equal b

end Number

end Reckoner
