import Reckoner.Binary64.Rounding

/-!
# Arithmetic of doubles

Each operation computes the exact result of its finite operands and rounds it once.  A sum that is
exactly zero is positive unless both operands are negative; products, quotients and roots of zeros
keep the sign rule of the operation.  Nothing here fails: undefined results are not-a-number and
division by zero is infinite.
-/

namespace Reckoner

/-- The greatest `root + r` below `2 ^ bits` more than `root` whose square is at most `n`. -/
def floorSqrtFrom (n : Nat) : Nat → Nat → Nat
  | 0, root => root
  | bits + 1, root =>
    let candidate := root + Nat.pow 2 bits
    if candidate * candidate ≤ n then floorSqrtFrom n bits candidate
    else floorSqrtFrom n bits root

/-- The greatest natural whose square is at most `n`, found bit by bit from the top. -/
def floorSqrt (n : Nat) : Nat := floorSqrtFrom n (Nat.log2 n / 2 + 1) 0

namespace Binary64

/-- Sum. -/
def add : Binary64 → Binary64 → Binary64
  | .nan, _ => .nan
  | _, .nan => .nan
  | .infinite s, .infinite t => if s = t then .infinite s else .nan
  | .infinite s, .finite .. => .infinite s
  | .finite .., .infinite t => .infinite t
  | .finite s m e _, .finite t n f _ =>
    let low := min e f
    let sum := signed s m * Nat.pow 2 (e - low).toNat + signed t n * Nat.pow 2 (f - low).toNat
    if sum = 0 then zero (s && t) else nearestScaled (sum < 0) sum.natAbs low

/-- Difference. -/
def sub (a b : Binary64) : Binary64 := add a (neg b)

/-- Product. -/
def mul : Binary64 → Binary64 → Binary64
  | .nan, _ => .nan
  | _, .nan => .nan
  | .infinite s, .infinite t => .infinite (s != t)
  | .infinite s, .finite t n _ _ => if n = 0 then .nan else .infinite (s != t)
  | .finite s m _ _, .infinite t => if m = 0 then .nan else .infinite (s != t)
  | .finite s m e _, .finite t n f _ => nearestScaled (s != t) (m * n) (e + f)

/-- Quotient. -/
def div : Binary64 → Binary64 → Binary64
  | .nan, _ => .nan
  | _, .nan => .nan
  | .infinite _, .infinite _ => .nan
  | .infinite s, .finite t _ _ _ => .infinite (s != t)
  | .finite s _ _ _, .infinite t => zero (s != t)
  | .finite s m e _, .finite t n f _ =>
    if n = 0 then (if m = 0 then .nan else .infinite (s != t))
    else nearest (s != t) (m * Nat.pow 2 (e - f).toNat) (n * Nat.pow 2 (f - e).toNat)

/-- Square root.  The mantissa is widened to an even exponent and well over 106 bits; one more bit
tells whether the integer root is inexact, which is all that rounding needs to know. -/
def sqrt : Binary64 → Binary64
  | .nan => .nan
  | .infinite negative => if negative then .nan else .infinite false
  | .finite negative m e _ =>
    if m = 0 then zero negative
    else if negative then .nan
    else
      let shift : Nat := 120 + (e % 2).toNat
      let widened := m * Nat.pow 2 shift
      let root := floorSqrt widened
      let inexact := if root * root = widened then 0 else 1
      nearestScaled false (2 * root + inexact) ((e - shift) / 2 - 1)

/-- The order of two doubles by value; there is none when either is not-a-number. -/
def compare : Binary64 → Binary64 → Option Ordering
  | .nan, _ => none
  | _, .nan => none
  | .infinite s, .infinite t =>
    if s = t then some .eq else if s then some .lt else some .gt
  | .infinite s, .finite .. => some (if s then .lt else .gt)
  | .finite .., .infinite t => some (if t then .gt else .lt)
  | .finite s m e _, .finite t n f _ =>
    let low := min e f
    some (Ord.compare (signed s m * Nat.pow 2 (e - low).toNat)
      (signed t n * Nat.pow 2 (f - low).toNat))

/-- Equality by value: both zeros are equal, not-a-number equals nothing. -/
def eq (a b : Binary64) : Bool := compare a b == some .eq

/-- Strictly less by value. -/
def lt (a b : Binary64) : Bool := compare a b == some .lt

end Binary64

end Reckoner
