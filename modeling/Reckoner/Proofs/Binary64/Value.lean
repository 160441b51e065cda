import Reckoner.Binary64.Arithmetic
import Reckoner.Proofs.Scaling

/-!
# The value of a double

`value?` is the exact dyadic rational of a finite double and `extended?` the extended real that a
double denotes; not-a-number denotes nothing.  `compare_eq` says that comparison of doubles is
comparison of those extended reals.
-/

namespace Reckoner.Binary64

/-- The exact rational value of a finite double. -/
def value? : Binary64 → Option ℚ
  | .finite negative mantissa exponent _ => some (signed negative mantissa * 2 ^ exponent)
  | _ => none

/-- The extended real that a double denotes. -/
noncomputable def extended? : Binary64 → Option EReal
  | .nan => none
  | .infinite negative => some (if negative then ⊥ else ⊤)
  | .finite negative mantissa exponent _ =>
    some (toExtended (signed negative mantissa * 2 ^ exponent))

theorem abs_signed (negative : Bool) (mantissa : ℕ) :
    |(signed negative mantissa : ℚ)| = mantissa := by
  cases negative <;> simp [signed]

theorem signed_neg_iff {negative : Bool} {mantissa : ℕ} (h : 0 < mantissa) :
    signed negative mantissa < 0 ↔ negative = true := by
  cases negative <;> simp [signed, h]

theorem signed_mul (negative : Bool) (m n : ℕ) :
    signed negative (m * n) = signed negative m * n := by
  cases negative <;> simp [signed]

/-- The magnitude of a double. -/
theorem abs_signed_scaled (negative : Bool) (m : ℕ) (e : ℤ) :
    |(signed negative m : ℚ) * 2 ^ e| = m * 2 ^ e := by
  rw [abs_mul, abs_signed, abs_of_pos (by positivity)]

theorem signed_scaled_neg_iff {negative : Bool} {m : ℕ} (hm : 0 < m) (e : ℤ) :
    (signed negative m : ℚ) * 2 ^ e < 0 ↔ negative = true := by
  rw [Rat.mul_neg_iff_of_pos_right (by positivity), Int.cast_lt_zero, signed_neg_iff hm]

theorem signed_scaled_eq_zero_iff {negative : Bool} {m : ℕ} {e : ℤ} :
    (signed negative m : ℚ) * 2 ^ e = 0 ↔ m = 0 := by
  have hpow : (2 : ℚ) ^ e ≠ 0 := by positivity
  cases negative <;> simp [signed, hpow]

/-- Zero has the least exponent only. -/
theorem Canonical.exponent_of_zero {e : ℤ} (h : Canonical 0 e) : e = -1074 :=
  h.2.2.2.resolve_left (by decide)

theorem isFinite_eq_isSome_value? (x : Binary64) : x.isFinite = x.value?.isSome := by
  cases x <;> rfl

@[simp] theorem value?_zero (negative : Bool) : (zero negative).value? = some 0 := by
  cases negative <;> simp [zero, value?, signed]

@[simp] theorem extended?_zero (negative : Bool) :
    (zero negative).extended? = some (toExtended 0) := by
  cases negative <;> simp [zero, extended?, signed]

theorem extended?_of_value? {x : Binary64} {q : ℚ} (h : x.value? = some q) :
    x.extended? = some (toExtended q) := by
  cases x with
  | nan => cases h
  | infinite => cases h
  | finite =>
    cases h
    rfl

/-- A double that denotes a rational is finite and has that value. -/
theorem value?_of_extended? {x : Binary64} {q : ℚ} (h : x.extended? = some (toExtended q)) :
    x.value? = some q := by
  cases x with
  | nan => cases h
  | infinite negative =>
    have hq := Option.some.inj h
    cases negative with
    | false => exact absurd hq (toExtended_lt_top q).ne'
    | true => exact absurd hq (bot_lt_toExtended q).ne
  | finite =>
    have hq := toExtended_inj.1 (Option.some.inj h)
    rw [← hq]
    rfl

private theorem compare_infinite_infinite (s t : Bool) :
    compare (.infinite s) (.infinite t) =
      some (cmp (if s then (⊥ : EReal) else ⊤) (if t then (⊥ : EReal) else ⊤)) := by
  cases s with
  | false =>
    cases t with
    | false => exact congrArg some ((cmp_eq_eq_iff _ _).2 rfl).symm
    | true => exact congrArg some ((cmp_eq_gt_iff _ _).2 bot_lt_top).symm
  | true =>
    cases t with
    | false => exact congrArg some ((cmp_eq_lt_iff _ _).2 bot_lt_top).symm
    | true => exact congrArg some ((cmp_eq_eq_iff _ _).2 rfl).symm

/-- Doubles are ordered as the extended reals that they denote; not-a-number has no order. -/
theorem compare_eq (x y : Binary64) :
    x.compare y = Option.map₂ cmp x.extended? y.extended? := by
  cases x with
  | nan => rfl
  | infinite s =>
    cases y with
    | nan => rfl
    | infinite t => exact compare_infinite_infinite s t
    | finite t n f hn =>
      cases s with
      | false =>
        exact congrArg some ((cmp_eq_gt_iff _ _).2 (toExtended_lt_top _)).symm
      | true =>
        exact congrArg some ((cmp_eq_lt_iff _ _).2 (bot_lt_toExtended _)).symm
  | finite s m e hm =>
    cases y with
    | nan => rfl
    | infinite t =>
      cases t with
      | false =>
        exact congrArg some ((cmp_eq_lt_iff _ _).2 (toExtended_lt_top _)).symm
      | true =>
        exact congrArg some ((cmp_eq_gt_iff _ _).2 (bot_lt_toExtended _)).symm
    | finite t n f hn =>
      have hcmp := compare_rescaled (show 0 < 2 by decide) e f (signed s m) (signed t n)
      rw [Nat.cast_ofNat] at hcmp
      exact congrArg some (hcmp.trans (cmp_toExtended _ _).symm)

end Reckoner.Binary64
