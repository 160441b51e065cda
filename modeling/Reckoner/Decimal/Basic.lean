import Reckoner.Binary64.Rounding
import Reckoner.Binary64.Shortest
import Reckoner.Word

/-!
# Decimals

A decimal is `coefficient · 10 ^ exponent`.  Nothing is normalised: `2.5` and `2.50` are different
decimals of the same value, and every operation says which exponent its result has.  Exponents fit
a signed word of 32 bits, which is part of the type; multiplication and division are the two
operations whose exponent can leave that range, and they answer `none` then.

* Sums and differences take the smaller exponent, products add the exponents.
* A quotient has sixteen places, a half going away from zero.
* `ofBinary64` is exact: a double with denominator `2 ^ k` gets the exponent `-k`.  `ofShortest`
  takes the fewest digits that read back instead.
-/

namespace Reckoner

/-- A decimal number with its scale. -/
structure Decimal where
  coefficient : Int
  exponent : Int
  fits : FitsInt32 exponent
deriving DecidableEq

/-- A quotient of integers rounded to the nearest integer, a half going away from zero. -/
def roundHalfAway (num den : Int) : Int :=
  let magnitude := (2 * num.natAbs + den.natAbs) / (2 * den.natAbs)
  if (num < 0) = (den < 0) then magnitude else -(magnitude : Int)

/-- Cancel common factors of two between a numerator and `2 ^ halvings`. -/
def reduceHalves : Nat → Nat → Nat × Nat
  | num, 0 => (num, 0)
  | num, halvings + 1 =>
    if num % 2 = 0 then reduceHalves (num / 2) halvings else (num, halvings + 1)

/-- Reduction never adds a factor to the denominator. -/
theorem reduceHalves_snd_le (num halvings : Nat) : (reduceHalves num halvings).2 ≤ halvings := by
  induction halvings generalizing num with
  | zero => simp [reduceHalves]
  | succ halvings ih =>
    rw [reduceHalves]
    split
    · exact Nat.le_succ_of_le (ih _)
    · exact Nat.le_refl _

/-- The denominator of a double has a small exponent. -/
theorem fits_reduceHalves {mantissa : Nat} {exponent : Int}
    (h : Binary64.Canonical mantissa exponent) :
    FitsInt32 (-((reduceHalves mantissa (-exponent).toNat).2 : Int)) := by
  have bound := reduceHalves_snd_le mantissa (-exponent).toNat
  have range := h.2.1
  unfold FitsInt32
  omega

namespace Decimal

/-- An integer, with exponent zero. -/
def ofInteger (n : Int) : Decimal := ⟨n, 0, by decide⟩

instance : Inhabited Decimal := ⟨ofInteger 0⟩

/-- The coefficient that a decimal has at a smaller exponent. -/
def coefficientAt (d : Decimal) (exponent : Int) : Int :=
  d.coefficient * Nat.pow 10 (d.exponent - exponent).toNat

/-- The smaller of two exponents fits when both do. -/
theorem fits_min (a b : Decimal) : FitsInt32 (min a.exponent b.exponent) := by
  have ha := a.fits
  have hb := b.fits
  unfold FitsInt32 at *
  omega

/-- Sum, at the smaller exponent. -/
def add (a b : Decimal) : Decimal :=
  let exponent := min a.exponent b.exponent
  ⟨a.coefficientAt exponent + b.coefficientAt exponent, exponent, fits_min a b⟩

/-- Difference, at the smaller exponent. -/
def sub (a b : Decimal) : Decimal :=
  let exponent := min a.exponent b.exponent
  ⟨a.coefficientAt exponent - b.coefficientAt exponent, exponent, fits_min a b⟩

/-- Product, unless the sum of the exponents does not fit. -/
def mul (a b : Decimal) : Option Decimal :=
  if h : FitsInt32 (a.exponent + b.exponent) then
    some ⟨a.coefficient * b.coefficient, a.exponent + b.exponent, h⟩
  else none

/-- The negative, at the same exponent. -/
def neg (d : Decimal) : Decimal := ⟨-d.coefficient, d.exponent, d.fits⟩

/-- The number of places of every quotient. -/
def divisionScale : Nat := 16

/-- Quotient by a decimal other than zero, unless the combined exponent does not fit. -/
def quotient (a b : Decimal) : Option Decimal :=
  let shift := a.exponent - b.exponent + divisionScale
  if FitsInt32 shift then
    some
      ⟨roundHalfAway (a.coefficient * Nat.pow 10 shift.toNat)
          (b.coefficient * Nat.pow 10 (-shift).toNat),
        -(divisionScale : Int), by decide⟩
  else none

/-- The order by value. -/
def compare (a b : Decimal) : Ordering :=
  let exponent := min a.exponent b.exponent
  Ord.compare (a.coefficientAt exponent) (b.coefficientAt exponent)

/-- The integer that a decimal is, if it is one. -/
def integer? (d : Decimal) : Option Int :=
  if 0 ≤ d.exponent then some (d.coefficientAt 0)
  else
    let unit := Nat.pow 10 (-d.exponent).toNat
    if d.coefficient.natAbs % unit = 0 then some (d.coefficient.tdiv unit) else none

/-- The exact value of a double: `± m / 2 ^ k` in lowest terms is `± m · 5 ^ k` at exponent `-k`.
There is none for an infinity or not-a-number. -/
def ofBinary64 : Binary64 → Option Decimal
  | .finite negative mantissa exponent canonical =>
    if 0 ≤ exponent then
      some (ofInteger (Binary64.signed negative (mantissa * Nat.pow 2 exponent.toNat)))
    else
      let reduced := reduceHalves mantissa (-exponent).toNat
      some
        ⟨Binary64.signed negative (reduced.1 * Nat.pow 5 reduced.2), -(reduced.2 : Int),
          fits_reduceHalves canonical⟩
  | _ => none

/-- The decimal with the fewest digits that reads back as a finite double. -/
def ofShortest : Binary64 → Option Decimal
  | .finite negative mantissa exponent canonical =>
    some
      ⟨Binary64.signed negative (Binary64.shortest mantissa exponent).digits,
        (Binary64.shortest mantissa exponent).exponent, by
        have range := Binary64.shortest_exponent_range canonical
        unfold FitsInt32
        omega⟩
  | _ => none

/-- The nearest double. -/
def toBinary64 (d : Decimal) : Binary64 :=
  Binary64.ofDecimal (d.coefficient < 0) d.coefficient.natAbs d.exponent

end Decimal

end Reckoner
