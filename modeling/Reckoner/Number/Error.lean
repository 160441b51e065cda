import Reckoner.Text.Integer

/-!
# What can go wrong with numbers

An operation fails because an operand is no number, because the result is undefined or does not
exist in the kind asked for, or because the exponent of a decimal leaves its range.
-/

namespace Reckoner

/-- Why a well-typed operation has no result. -/
inductive ArithmeticCause where
  | wordDivisionByZero
  | bigintDivisionByZero
  | decimalDivisionByZero
  | decimalDivisionUndefined
  /-- An infinity or not-a-number where a decimal is needed. -/
  | notFinite
  /-- A value with a fraction where an integer is needed. -/
  | notInteger (value : String)
  /-- An integer outside the range of its target. -/
  | outOfRange (value : String)
deriving DecidableEq, Repr

/-- The wording of a cause. -/
def ArithmeticCause.message : ArithmeticCause → String
  | .wordDivisionByZero => "/ by zero"
  | .bigintDivisionByZero => "BigInteger divide by zero"
  | .decimalDivisionByZero => "Division by zero"
  | .decimalDivisionUndefined => "Division undefined"
  | .notFinite => "infinite or NaN has no decimal value"
  | .notInteger value => value ++ " is not an integer"
  | .outOfRange value => value ++ " is out of range"

/-- A failure of an operation on numbers. -/
inductive NumberError where
  /-- An operand is no number.  The position is 0 for an operation with one operand. -/
  | operand (operator : String) (position : Int) (actual : String)
  | arithmetic (operator : String) (cause : ArithmeticCause)
  /-- The exponent of a product of decimals does not fit. -/
  | exponentOverflow (exponent : Int)
  /-- The combined exponent of a quotient of decimals does not fit. -/
  | quotientOverflow
deriving DecidableEq, Repr

/-- An ordinal as messages spell it. -/
def ordinal (n : Int) : String :=
  if n = 1 then "1st"
  else if n = 2 then "2nd"
  else if n = 3 then "3rd"
  else Text.ofInteger n ++ "th"

/-- The wording of a failure. -/
def NumberError.message : NumberError → String
  | .operand operator position actual =>
    if position = 0 then operator ++ ": expected a number, got " ++ actual
    else operator ++ ": " ++ ordinal position ++ " operand must be a number, got " ++ actual
  | .arithmetic operator cause => operator ++ ": " ++ cause.message
  | .exponentOverflow exponent =>
    "exponent " ++ Text.ofInteger exponent ++ " overflows an int32!"
  | .quotientOverflow => "overflow in decimal QuoRem"

end Reckoner
