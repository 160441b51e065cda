import Reckoner.Binary64.Arithmetic
import Reckoner.Number.Basic
import Reckoner.Number.Error

/-!
# Arithmetic across kinds

`align` brings two numbers to the kind that `Kind.promote` gives for them, and each operation then
has one rule per kind.  The only failure of alignment is an infinity or not-a-number that would
have to become a decimal.

* Machine integers wrap; their division truncates.
* Unbounded integers and decimals are exact, apart from the quotient of decimals.
* Doubles never fail.
-/

namespace Reckoner

/-- Two numbers of one kind. -/
inductive Aligned where
  | int32 (a b : Int32)
  | int64 (a b : Int64)
  | float64 (a b : Binary64)
  | bigint (a b : Int)
  | decimal (a b : Decimal)

namespace Number

/-- Bring two numbers to one kind, if both have a value in it. -/
def align? : Number → Number → Option Aligned
  | .int32 a, .int32 b => some (.int32 a b)
  | .int32 a, .int64 b => some (.int64 a.toInt64 b)
  | .int64 a, .int32 b => some (.int64 a b.toInt64)
  | .int64 a, .int64 b => some (.int64 a b)
  | .float64 a, .float64 b => some (.float64 a b)
  | .float64 a, .int32 b => some (.float64 a (Binary64.ofInteger b.toInt))
  | .float64 a, .int64 b => some (.float64 a (Binary64.ofInteger b.toInt))
  | .int32 a, .float64 b => some (.float64 (Binary64.ofInteger a.toInt) b)
  | .int64 a, .float64 b => some (.float64 (Binary64.ofInteger a.toInt) b)
  | .bigint a, .bigint b => some (.bigint a b)
  | .bigint a, .int32 b => some (.bigint a b.toInt)
  | .bigint a, .int64 b => some (.bigint a b.toInt)
  | .int32 a, .bigint b => some (.bigint a.toInt b)
  | .int64 a, .bigint b => some (.bigint a.toInt b)
  | a, b =>
    match a.decimal?, b.decimal? with
    | some a, some b => some (.decimal a b)
    | _, _ => none

/-- Bring the operands of an operator to one kind. -/
def align (operator : String) (a b : Number) : Except NumberError Aligned :=
  match align? a b with
  | some aligned => .ok aligned
  | none => .error (.arithmetic operator .notFinite)

/-- Sum. -/
def add (a b : Number) : Except NumberError Number := do
  match ← align "+" a b with
  | .int32 a b => .ok (.int32 (a + b))
  | .int64 a b => .ok (.int64 (a + b))
  | .float64 a b => .ok (.float64 (a.add b))
  | .bigint a b => .ok (.bigint (a + b))
  | .decimal a b => .ok (.decimal (a.add b))

/-- Difference. -/
def sub (a b : Number) : Except NumberError Number := do
  match ← align "-" a b with
  | .int32 a b => .ok (.int32 (a - b))
  | .int64 a b => .ok (.int64 (a - b))
  | .float64 a b => .ok (.float64 (a.sub b))
  | .bigint a b => .ok (.bigint (a - b))
  | .decimal a b => .ok (.decimal (a.sub b))

/-- Product of decimals; the exponents add up. -/
def mulDecimal (a b : Decimal) : Except NumberError Number :=
  match a.mul b with
  | some product => .ok (.decimal product)
  | none => .error (.exponentOverflow (a.exponent + b.exponent))

/-- Product. -/
def mul (a b : Number) : Except NumberError Number := do
  match ← align "*" a b with
  | .int32 a b => .ok (.int32 (a * b))
  | .int64 a b => .ok (.int64 (a * b))
  | .float64 a b => .ok (.float64 (a.mul b))
  | .bigint a b => .ok (.bigint (a * b))
  | .decimal a b => mulDecimal a b

/-- Quotient of decimals, rounded to the fixed number of places. -/
def divDecimal (a b : Decimal) : Except NumberError Number :=
  if b.coefficient = 0 then
    if a.coefficient = 0 then .error (.arithmetic "/" .decimalDivisionUndefined)
    else .error (.arithmetic "/" .decimalDivisionByZero)
  else match a.quotient b with
    | some quotient => .ok (.decimal quotient)
    | none => .error .quotientOverflow

/-- Quotient. -/
def div (a b : Number) : Except NumberError Number := do
  match ← align "/" a b with
  | .int32 a b =>
    if b = 0 then .error (.arithmetic "/" .wordDivisionByZero) else .ok (.int32 (a / b))
  | .int64 a b =>
    if b = 0 then .error (.arithmetic "/" .wordDivisionByZero) else .ok (.int64 (a / b))
  | .float64 a b => .ok (.float64 (a.div b))
  | .bigint a b =>
    if b = 0 then .error (.arithmetic "/" .bigintDivisionByZero) else .ok (.bigint (a.tdiv b))
  | .decimal a b => divDecimal a b

/-- The product of a number with itself. -/
def square (a : Number) : Except NumberError Number := mul a a

/-- The negative, in the same kind.  The least machine integer is its own negative. -/
def neg : Number → Number
  | .int32 n => .int32 (-n)
  | .int64 n => .int64 (-n)
  | .float64 x => .float64 x.neg
  | .bigint n => .bigint (-n)
  | .decimal d => .decimal d.neg

/-- The root of an exact number as a decimal of the precision of a double. -/
def sqrtDecimal (root : Binary64) : Except NumberError Number :=
  match Decimal.ofShortest root with
  | some value => .ok (.decimal value)
  | none => .error (.arithmetic "sqrt" .notFinite)

/-- Square root of the nearest double.  Unbounded integers and decimals give a decimal. -/
def sqrt (a : Number) : Except NumberError Number :=
  let root := a.toBinary64.sqrt
  match a with
  | .bigint _ => sqrtDecimal root
  | .decimal _ => sqrtDecimal root
  | _ => .ok (.float64 root)

end Number

end Reckoner
