import Reckoner.Decimal.Basic
import Reckoner.Text.Integer

/-!
# Decimals as text

`fixed` keeps the scale: a decimal with exponent `-k` is written with `k` places.  `text` drops the
zeros at the end of the fraction, and the point with them.  Both write a decimal with a positive
exponent as a plain integer, and a zero has no sign.

`read` keeps the scale of its text.  What follows the first `e` is a power of ten; the rest is the
mantissa, an integer once its point is removed.
-/

namespace Reckoner.Decimal

/-- The digits of a magnitude before and after the point when it has the given places. -/
def splitPlaces (magnitude places : Nat) : List Char × List Char :=
  let digits := (Nat.repr magnitude).toList
  let padded := List.replicate (places + 1 - digits.length) '0' ++ digits
  (padded.take (padded.length - places), padded.drop (padded.length - places))

/-- Whole digits and a fraction, with a point if the fraction is not empty. -/
def joinPlaces (negative : Bool) (whole fraction : List Char) : String :=
  let body := if fraction.isEmpty then whole else whole ++ '.' :: fraction
  String.ofList (if negative then '-' :: body else body)

/-- The text that keeps the scale. -/
def fixed (d : Decimal) : String :=
  if 0 ≤ d.exponent then Text.ofInteger (d.coefficientAt 0)
  else
    let (whole, fraction) := splitPlaces d.coefficient.natAbs (-d.exponent).toNat
    joinPlaces (d.coefficient < 0) whole fraction

/-- The text without zeros at the end of the fraction. -/
def text (d : Decimal) : String :=
  if 0 ≤ d.exponent then Text.ofInteger (d.coefficientAt 0)
  else
    let (whole, fraction) := splitPlaces d.coefficient.natAbs (-d.exponent).toNat
    joinPlaces (d.coefficient < 0) whole (fraction.reverse.dropWhile (· == '0')).reverse

/-- Why a text is no decimal. -/
inductive ReadFault where
  /-- What follows the exponent mark is no integer. -/
  | exponentNotNumeric (text : String)
  /-- The exponent does not fit. -/
  | exponentTooLong (text : String)
  /-- The mantissa has more than one point. -/
  | manyPoints (mantissa : String)
  /-- The mantissa without its point is no integer. -/
  | badMantissa (mantissa : String)
deriving DecidableEq, Repr

/-- Split a text at its first exponent mark. -/
def splitExponent (text : List Char) : List Char × Option (List Char) :=
  let isMark (c : Char) : Bool := c == 'e' || c == 'E'
  let mantissa := text.takeWhile fun c => !isMark c
  match text.dropWhile fun c => !isMark c with
  | [] => (mantissa, none)
  | _ :: exponent => (mantissa, some exponent)

/-- The exponent that follows the mark, zero when there is no mark. -/
def readExponent (whole : String) : Option (List Char) → Except ReadFault Int
  | none => .ok 0
  | some exponent =>
    match Text.scanInt32 exponent with
    | .ok value => .ok value
    | .error .tooLarge => .error (.exponentTooLong whole)
    | .error .notNumeric => .error (.exponentNotNumeric whole)

/-- The bytes that a text takes in the UTF-8 encoding. -/
def byteCount (text : List Char) : Nat := text.foldl (fun total c => total + c.utf8Size) 0

/-- The coefficient of a mantissa and the number of places after its point. -/
def readMantissa (mantissa : List Char) : Except ReadFault (Int × Nat) :=
  let whole := mantissa.takeWhile (· != '.')
  let fraction := (mantissa.dropWhile (· != '.')).drop 1
  if fraction.contains '.' then .error (.manyPoints (String.ofList mantissa))
  else match Text.readInteger (whole ++ fraction) with
    | some coefficient => .ok (coefficient, byteCount fraction)
    | none => .error (.badMantissa (String.ofList mantissa))

/-- Read a decimal. -/
def read (text : String) : Except ReadFault Decimal := do
  let (mantissa, exponentText) := splitExponent text.toList
  let exponent ← readExponent text exponentText
  let (coefficient, places) ← readMantissa mantissa
  if h : FitsInt32 (exponent - places) then .ok ⟨coefficient, exponent - places, h⟩
  else .error (.exponentTooLong text)

/-- What is wrong with a text that is no decimal. -/
def ReadFault.message : ReadFault → String
  | .exponentNotNumeric text => "can't convert " ++ text ++ " to decimal: exponent is not numeric"
  | .exponentTooLong text => "can't convert " ++ text ++ " to decimal: fractional part too long"
  | .manyPoints mantissa => "can't convert " ++ mantissa ++ " to decimal: too many .s"
  | .badMantissa mantissa => "can't convert " ++ mantissa ++ " to decimal"

end Reckoner.Decimal
