import Reckoner.Binary64.Basic

/-!
# Rounding an exact quotient to a double

`nearest` is the one place where precision is lost: it takes an exact quotient of naturals and
gives the nearest double, an exact half going to the even mantissa.  Magnitudes from half a unit
beyond the largest double on become infinite.

The exponent is chosen first, so that the mantissa has 53 bits or the exponent is the least one;
then the quotient is rounded once to a whole multiple of that power of two.
-/

namespace Reckoner

/-- A quotient of naturals rounded to the nearest natural, a half going to the even one. -/
def roundHalfEven (num den : Nat) : Nat :=
  let quotient := num / den
  let remainder := num % den
  if 2 * remainder < den then quotient
  else if den < 2 * remainder then quotient + 1
  else if quotient % 2 = 0 then quotient
  else quotient + 1

namespace Binary64

/-- The numerator of `num / 2 ^ exponent` over the denominator `divisorAt`. -/
def dividendAt (num : Nat) (exponent : Int) : Nat := num * Nat.pow 2 (-exponent).toNat

/-- The denominator that goes with `dividendAt`. -/
def divisorAt (den : Nat) (exponent : Int) : Nat := den * Nat.pow 2 exponent.toNat

/-- The greatest `k` with `2 ^ k ≤ num / den`, for positive arguments. -/
def floorLog2 (num den : Nat) : Int :=
  let guess : Int := (Nat.log2 num : Int) - Nat.log2 den
  if dividendAt num guess < divisorAt den guess then guess - 1 else guess

/-- The exponent at which a quotient is rounded. -/
def roundingExponent (num den : Nat) : Int :=
  max (floorLog2 num den - 52) (-1074)

/-- A rounded mantissa with its exponent.  Rounding up may carry into a 54th bit; what is too large
for any exponent is infinite. -/
def pack (negative : Bool) (mantissa : Nat) (exponent : Int) : Binary64 :=
  if h : Canonical mantissa exponent then .finite negative mantissa exponent h
  else if h : Canonical (mantissa / 2) (exponent + 1) then
    .finite negative (mantissa / 2) (exponent + 1) h
  else .infinite negative

/-- The double nearest to `± num / den`. -/
def nearest (negative : Bool) (num den : Nat) : Binary64 :=
  if num = 0 then zero negative
  else
    let exponent := roundingExponent num den
    pack negative (roundHalfEven (dividendAt num exponent) (divisorAt den exponent)) exponent

/-- The double nearest to `± mantissa · 2 ^ exponent`. -/
def nearestScaled (negative : Bool) (mantissa : Nat) (exponent : Int) : Binary64 :=
  nearest negative (mantissa * Nat.pow 2 exponent.toNat) (Nat.pow 2 (-exponent).toNat)

/-- The double nearest to an integer. -/
def ofInteger (n : Int) : Binary64 := nearest (n < 0) n.natAbs 1

/-- The double nearest to `± coefficient · 10 ^ exponent`.  A magnitude of more than 310 digits is
infinite and one below `10 ^ -330` is zero, so no power of ten is formed for those. -/
def ofDecimal (negative : Bool) (coefficient : Nat) (exponent : Int) : Binary64 :=
  if coefficient = 0 then zero negative
  else
    let top : Int := (Nat.repr coefficient).length + exponent
    if 310 < top then .infinite negative
    else if top < -330 then zero negative
    else nearest negative (coefficient * Nat.pow 10 exponent.toNat) (Nat.pow 10 (-exponent).toNat)

end Binary64

end Reckoner
