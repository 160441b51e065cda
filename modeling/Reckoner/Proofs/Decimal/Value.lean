import Reckoner.Decimal.Basic
import Reckoner.Proofs.Binary64.Value

/-!
# The value of a decimal

`value` is the rational `coefficient · 10 ^ exponent`.  There is one lemma per operation:

* sums, differences and products are exact, and each says its exponent;
* comparison is comparison of values;
* the decimal of a double has exactly its value, at the exponent that the reduced denominator
  `2 ^ k` of the double asks for.
-/

namespace Reckoner

/-! ## Exact operations -/

namespace Decimal

/-- The rational value of a decimal. -/
def value (d : Decimal) : ℚ := d.coefficient * 10 ^ d.exponent

@[simp] theorem value_ofInteger (n : ℤ) : (ofInteger n).value = n := by simp [value, ofInteger]

theorem coefficientAt_value {d : Decimal} {e : ℤ} (h : e ≤ d.exponent) :
    (d.coefficientAt e : ℚ) * 10 ^ e = d.value := by
  have hvalue := rescale_value (show 0 < 10 by decide) h d.coefficient
  rw [Nat.cast_ofNat] at hvalue
  exact hvalue

theorem value_add (a b : Decimal) : (a.add b).value = a.value + b.value := by
  rw [← coefficientAt_value (min_le_left a.exponent b.exponent),
    ← coefficientAt_value (min_le_right a.exponent b.exponent), ← add_mul, ← Int.cast_add]
  rfl

theorem value_sub (a b : Decimal) : (a.sub b).value = a.value - b.value := by
  rw [← coefficientAt_value (min_le_left a.exponent b.exponent),
    ← coefficientAt_value (min_le_right a.exponent b.exponent), ← sub_mul, ← Int.cast_sub]
  rfl

/-- A product is exact at the sum of the exponents, whenever that sum fits. -/
theorem mul_of_fits {a b : Decimal} (h : FitsInt32 (a.exponent + b.exponent)) :
    ∃ p, a.mul b = some p ∧ p.value = a.value * b.value ∧
      p.exponent = a.exponent + b.exponent := by
  refine ⟨_, dif_pos h, ?_, rfl⟩
  simp only [value]
  rw [zpow_add₀ (by norm_num), Int.cast_mul]
  ring

theorem mul_of_not_fits {a b : Decimal} (h : ¬FitsInt32 (a.exponent + b.exponent)) :
    a.mul b = none :=
  dif_neg h

theorem compare_eq_cmp (a b : Decimal) : a.compare b = cmp a.value b.value := by
  have hcmp := compare_rescaled (show 0 < 10 by decide) a.exponent b.exponent a.coefficient
    b.coefficient
  rw [Nat.cast_ofNat] at hcmp
  exact hcmp

theorem value_eq_zero_iff {d : Decimal} : d.value = 0 ↔ d.coefficient = 0 := by
  have hpow : (10 : ℚ) ^ d.exponent ≠ 0 := zpow_ne_zero _ (by norm_num)
  simp [value, hpow]

theorem value_neg_iff {d : Decimal} : d.value < 0 ↔ d.coefficient < 0 := by
  rw [value, Rat.mul_neg_iff_of_pos_right (by positivity), Int.cast_lt_zero]

theorem abs_value (d : Decimal) : |d.value| = (d.coefficient.natAbs : ℚ) * 10 ^ d.exponent := by
  have hten : (0 : ℚ) < 10 ^ d.exponent := by positivity
  rw [value, abs_mul, abs_of_pos hten, Nat.cast_natAbs, Int.cast_abs]

end Decimal

/-! ## The exact decimal of a double -/

/-- Cancelling factors of two keeps the quotient. -/
theorem reduceHalves_value (num halvings : ℕ) :
    ((reduceHalves num halvings).1 : ℚ) / 2 ^ (reduceHalves num halvings).2 =
      num / 2 ^ halvings := by
  induction halvings generalizing num with
  | zero => rfl
  | succ halvings ih =>
    rw [reduceHalves]
    split
    · rename_i heven
      obtain ⟨half, rfl⟩ := Nat.dvd_of_mod_eq_zero heven
      rw [ih, Nat.mul_div_cancel_left half (by decide), Nat.cast_mul, Nat.cast_ofNat, pow_succ',
        mul_div_mul_left _ _ (by norm_num)]
    · rfl

/-- A denominator that is left over shares no factor with the numerator. -/
theorem reduceHalves_coprime (num halvings : ℕ) :
    Nat.Coprime (reduceHalves num halvings).1 (2 ^ (reduceHalves num halvings).2) := by
  induction halvings generalizing num with
  | zero => simp [reduceHalves]
  | succ halvings ih =>
    rw [reduceHalves]
    split
    · exact ih _
    · rename_i hodd
      exact (Nat.coprime_two_right.2 (Nat.odd_iff.2 (by omega))).pow_right _

namespace Binary64

/-- A double below exponent zero as a reduced fraction over a power of two. -/
theorem value_eq_reduced (negative : Bool) (m : ℕ) {e : ℤ} (he : e < 0) :
    (signed negative m : ℚ) * 2 ^ e =
      (signed negative (reduceHalves m (-e).toNat).1 : ℚ) / 2 ^ (reduceHalves m (-e).toNat).2 := by
  have hvalue := reduceHalves_value m (-e).toNat
  have hpow : (2 : ℚ) ^ e = 1 / 2 ^ (-e).toNat := by
    rw [← zpow_natCast, Int.toNat_of_nonneg (by omega), zpow_neg, one_div, inv_inv]
  rw [hpow, mul_one_div]
  cases negative with
  | false => exact hvalue.symm
  | true =>
    simp only [signed, if_true, Int.cast_neg, Int.cast_natCast, neg_div]
    rw [hvalue]

theorem den_signed_div {negative : Bool} {m k : ℕ} (h : Nat.Coprime m (2 ^ k)) :
    ((signed negative m : ℚ) / 2 ^ k).den = 2 ^ k := by
  have hcoprime : Nat.Coprime (signed negative m).natAbs ((2 ^ k : ℕ) : ℤ).natAbs := by
    cases negative <;> simpa [signed] using h
  have hden := Rat.den_div_eq_of_coprime (by positivity) hcoprime
  push_cast at hden
  exact_mod_cast hden

end Binary64

namespace Decimal

/-- A factor of five for every place turns tenths into halves. -/
theorem value_fives (c : ℤ) (k : ℕ) (fits : FitsInt32 (-(k : ℤ))) :
    (⟨c * (Nat.pow 5 k : ℕ), -(k : ℤ), fits⟩ : Decimal).value = (c : ℚ) / 2 ^ k := by
  have hten : (10 : ℚ) ^ k = 5 ^ k * 2 ^ k := by
    rw [← mul_pow]
    norm_num
  simp only [value]
  rw [zpow_neg, zpow_natCast, hten, Nat.pow_eq]
  push_cast
  field_simp

/-- A finite double has a decimal of exactly its value, whose exponent is the negative logarithm of
the reduced denominator. -/
theorem ofBinary64_of_value? {x : Binary64} {q : ℚ} (h : x.value? = some q) :
    ∃ d, ofBinary64 x = some d ∧ d.value = q ∧ d.exponent = -(q.den.log2 : ℤ) := by
  cases x with
  | nan => cases h
  | infinite => cases h
  | finite negative m e canonical =>
    obtain rfl : (Binary64.signed negative m : ℚ) * 2 ^ e = q := Option.some.inj h
    rw [ofBinary64]
    by_cases he : 0 ≤ e
    · have hvalue : (Binary64.signed negative m : ℚ) * 2 ^ e =
          (Binary64.signed negative (m * Nat.pow 2 e.toNat) : ℤ) := by
        have hpow : (2 : ℚ) ^ e = 2 ^ e.toNat := by
          rw [← zpow_natCast, Int.toNat_of_nonneg he]
        rw [hpow, Binary64.signed_mul, Nat.pow_eq]
        push_cast
        rfl
      refine ⟨_, if_pos he, ?_, ?_⟩
      · rw [value_ofInteger, hvalue]
      · rw [hvalue, Rat.den_intCast]
        rfl
    · refine ⟨_, if_neg he, ?_, ?_⟩
      · rw [Binary64.value_eq_reduced negative m (by omega)]
        simp only [Binary64.signed_mul]
        exact value_fives _ _ _
      · rw [Binary64.value_eq_reduced negative m (by omega),
          Binary64.den_signed_div (reduceHalves_coprime _ _), Nat.log2_two_pow]

end Decimal

end Reckoner
