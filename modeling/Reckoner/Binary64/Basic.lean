/-!
# Binary doubles

A double is not-a-number, an infinity, or a finite `± mantissa · 2 ^ exponent`.  The pair of
mantissa and exponent is canonical: the mantissa has 53 bits unless the exponent is the least one,
so two finite doubles are equal as data exactly when they have the same bits.  There is one
not-a-number.

`ofBits` and `toBits` are the interchange encoding of 64 bits.
-/

namespace Reckoner

/-- The value of the 53rd bit of a mantissa, which the encoding leaves out: two to the power of
52. -/
def Binary64.topBit : Nat := 4503599627370496

/-- The one form of a finite magnitude: 53 bits, or fewer at the least exponent. -/
def Binary64.Canonical (mantissa : Nat) (exponent : Int) : Prop :=
  mantissa < 2 * topBit ∧ -1074 ≤ exponent ∧ exponent ≤ 971 ∧
    (topBit ≤ mantissa ∨ exponent = -1074)

instance (mantissa : Nat) (exponent : Int) : Decidable (Binary64.Canonical mantissa exponent) :=
  inferInstanceAs (Decidable (_ ∧ _))

/-- A binary double. -/
inductive Binary64 where
  | nan
  | infinite (negative : Bool)
  | finite (negative : Bool) (mantissa : Nat) (exponent : Int)
      (canonical : Binary64.Canonical mantissa exponent)
deriving DecidableEq

namespace Binary64

/-- A zero of either sign. -/
def zero (negative : Bool) : Binary64 := .finite negative 0 (-1074) (by decide)

instance : Inhabited Binary64 := ⟨zero false⟩

/-- Whether the double is a number other than an infinity. -/
def isFinite : Binary64 → Bool
  | .finite .. => true
  | _ => false

/-- A mantissa with its sign. -/
def signed (negative : Bool) (mantissa : Nat) : Int :=
  if negative then -(mantissa : Int) else mantissa

/-- The same magnitude with the other sign. -/
def neg : Binary64 → Binary64
  | .nan => .nan
  | .infinite negative => .infinite (!negative)
  | .finite negative mantissa exponent canonical => .finite (!negative) mantissa exponent canonical

/-- The double of a 64-bit pattern.  Every pattern of a not-a-number is the one not-a-number. -/
def ofBits (bits : UInt64) : Binary64 :=
  let negative := bits.toNat / (2048 * topBit) % 2 == 1
  let field := bits.toNat / topBit % 2048
  let fraction := bits.toNat % topBit
  have fraction_lt : fraction < topBit := Nat.mod_lt _ (by decide)
  have field_lt : field < 2048 := Nat.mod_lt _ (by decide)
  if hspecial : field = 2047 then
    if fraction = 0 then .infinite negative else .nan
  else if hleast : field = 0 then
    .finite negative fraction (-1074) (by unfold Canonical; omega)
  else
    .finite negative (topBit + fraction) ((field : Int) - 1075) (by unfold Canonical; omega)

/-- The sign bit. -/
def signBit (negative : Bool) : Nat := if negative then 2048 * topBit else 0

/-- The 64-bit pattern of a double. -/
def toBits : Binary64 → UInt64
  | .nan => 0x7ff8000000000001
  | .infinite negative => UInt64.ofNat (signBit negative + 2047 * topBit)
  | .finite negative mantissa exponent _ =>
    if mantissa < topBit then UInt64.ofNat (signBit negative + mantissa)
    else
      UInt64.ofNat (signBit negative + (exponent + 1075).toNat * topBit + (mantissa - topBit))

/-- The integer that a double is, if it is one. -/
def integer? : Binary64 → Option Int
  | .finite negative mantissa exponent _ =>
    if 0 ≤ exponent then some (signed negative (mantissa * Nat.pow 2 exponent.toNat))
    else if mantissa % Nat.pow 2 (-exponent).toNat = 0 then
      some (signed negative (mantissa / Nat.pow 2 (-exponent).toNat))
    else none
  | _ => none

end Binary64

end Reckoner
