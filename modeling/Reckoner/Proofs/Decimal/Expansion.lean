import Reckoner.Number.Operand
import Reckoner.Proofs.Binary64.Interval
import Reckoner.Proofs.Decimal.Value

/-!
# The decimal expansion of a double

Every finite double has a finite decimal expansion, and `ofBinary64` gives it without a digit too
many.

* The denominator of a double is a power of two (`exists_den_eq_two_pow`), and a rational over
  `2 ^ k` in lowest terms needs `k` decimal places (`le_of_mem_sufficientPlaces`).
* With the fewest places the last one is not a zero, which could be dropped
  (`exponent_eq_zero_or_not_dvd`).
* The way back is about values only: a decimal of any scale that has the value of a double is
  rounded to that double (`toBinary64_of_value?`).  A decimal has no negative zero, so that sign is
  lost.
-/

namespace Reckoner

theorem den_dvd_of_eq_div {q : ℚ} {c : ℤ} {n : ℕ} (h : q = c / n) : q.den ∣ n := by
  have hdvd := Rat.den_dvd c n
  rw [Rat.divInt_eq_div, Int.cast_natCast, ← h] at hdvd
  exact_mod_cast hdvd

theorem Binary64.exists_den_eq_two_pow {x : Binary64} {q : ℚ} (h : x.value? = some q) :
    ∃ k, q.den = 2 ^ k := by
  cases x with
  | nan => cases h
  | infinite => cases h
  | finite negative m e canonical =>
    have hquotient : q = (signed negative m * 2 ^ e.toNat : ℤ) / (2 ^ (-e).toNat : ℕ) := by
      rw [← Option.some.inj h]
      push_cast
      rw [mul_div_assoc, ← Nat.cast_ofNat (R := ℚ), ← zpow_eq_div (by decide)]
    obtain ⟨k, _, hk⟩ := (Nat.dvd_prime_pow Nat.prime_two).1 (den_dvd_of_eq_div hquotient)
    exact ⟨k, hk⟩

/-! ## Decimal places -/

/-- The numbers of fractional digits with which a rational can be written exactly. -/
def sufficientPlaces (q : ℚ) : Set ℕ := {places | ∃ c : ℤ, q = c / 10 ^ places}

/-- A denominator `2 ^ k` divides no power of ten below the `k`-th one. -/
theorem le_of_mem_sufficientPlaces {q : ℚ} {k places : ℕ} (hden : q.den = 2 ^ k)
    (h : places ∈ sufficientPlaces q) : k ≤ places := by
  obtain ⟨c, hc⟩ := h
  have hdvd : 2 ^ k ∣ 2 ^ places * 5 ^ places := by
    rw [← hden, ← mul_pow]
    exact den_dvd_of_eq_div (c := c) (by exact_mod_cast hc)
  have hcoprime : Nat.Coprime (2 ^ k) (5 ^ places) := Nat.Coprime.pow k places (by decide)
  exact (Nat.pow_dvd_pow_iff_le_right (by decide)).1 (hcoprime.dvd_of_dvd_mul_right hdvd)

namespace Decimal

variable {d : Decimal} {k : ℕ}

theorem value_eq_div (hexponent : d.exponent = -(k : ℤ)) : d.value = d.coefficient / 10 ^ k := by
  rw [value, hexponent, zpow_neg, zpow_natCast, div_eq_mul_inv]

theorem isLeast_sufficientPlaces (hden : d.value.den = 2 ^ k) (hexponent : d.exponent = -(k : ℤ)) :
    IsLeast (sufficientPlaces d.value) k :=
  ⟨⟨d.coefficient, value_eq_div hexponent⟩, fun _ h => le_of_mem_sufficientPlaces hden h⟩

/-- With the fewest places there is no zero at the end of the fraction. -/
theorem exponent_eq_zero_or_not_dvd (hleast : IsLeast (sufficientPlaces d.value) k)
    (hexponent : d.exponent = -(k : ℤ)) : d.exponent = 0 ∨ ¬10 ∣ d.coefficient := by
  cases k with
  | zero => exact .inl hexponent
  | succ k =>
    refine .inr ?_
    rintro ⟨c, hc⟩
    have hfewer : k ∈ sufficientPlaces d.value := by
      refine ⟨c, ?_⟩
      rw [value_eq_div hexponent, hc, pow_succ', Int.cast_mul, Int.cast_ofNat,
        mul_div_mul_left _ _ (by norm_num)]
    exact absurd (hleast.2 hfewer) (by omega)

/-! ## The way back -/

/-- A decimal with the value of a double is rounded to that double, at every scale. -/
theorem toBinary64_of_value? {x : Binary64} (h : x.value? = some d.value) :
    d.toBinary64 = if x = .zero true then .zero false else x := by
  cases x with
  | nan => cases h
  | infinite => cases h
  | finite negative m e canonical =>
    have hvalue : (Binary64.signed negative m : ℚ) * 2 ^ e = d.value := Option.some.inj h
    rw [toBinary64]
    rcases Nat.eq_zero_or_pos m with rfl | hm
    · obtain rfl := canonical.exponent_of_zero
      have hzero : d.coefficient = 0 := by
        rw [← value_eq_zero_iff, ← hvalue, Binary64.signed_scaled_eq_zero_iff]
      rw [hzero]
      cases negative <;> rfl
    · have hsign : decide (d.coefficient < 0) = negative := by
        have hiff : d.value < 0 ↔ negative = true := hvalue ▸ Binary64.signed_scaled_neg_iff hm e
        rw [value_neg_iff] at hiff
        cases negative <;> simpa using hiff
      have hmagnitude : (d.coefficient.natAbs : ℚ) * 10 ^ d.exponent = m * 2 ^ e := by
        rw [← abs_value, ← hvalue, Binary64.abs_signed_scaled]
      have hne : Binary64.finite negative m e canonical ≠ .zero true := by
        intro hzero
        cases hzero
        exact absurd hm (by decide)
      rw [if_neg hne, hsign]
      apply Binary64.ofDecimal_of_contains negative canonical hm
      rw [hmagnitude]
      exact Binary64.interval_contains_value hm

/-- The decimal of a finite double has exactly its value.  Its exponent is `-k` for the denominator
`2 ^ k` of the double in lowest terms, and `k` is the least number of places for that value, so a
fraction does not end in a zero.  Conversion gives this decimal, and conversion of the decimal gives
the double again; a negative zero comes back as the positive one. -/
theorem exact_expansion (x : Binary64) (hx : x.isFinite = true) :
    ∃ (d : Decimal) (k : ℕ), ofBinary64 x = some d ∧ x.value? = some d.value ∧
      d.value.den = 2 ^ k ∧ d.exponent = -(k : ℤ) ∧
      IsLeast (sufficientPlaces d.value) k ∧ (d.exponent = 0 ∨ ¬10 ∣ d.coefficient) ∧
      Operand.convert (.number (.float64 x)) .decimal = .ok (.decimal d) ∧
      Operand.convert (.number (.decimal d)) .float64 =
        .ok (.float64 (if x = .zero true then .zero false else x)) := by
  rw [Binary64.isFinite_eq_isSome_value?, Option.isSome_iff_exists] at hx
  obtain ⟨q, hq⟩ := hx
  obtain ⟨d, hd, rfl, hexponent⟩ := ofBinary64_of_value? hq
  obtain ⟨k, hden⟩ := Binary64.exists_den_eq_two_pow hq
  rw [hden, Nat.log2_two_pow] at hexponent
  have hleast := isLeast_sufficientPlaces hden hexponent
  refine ⟨d, k, hd, hq, hden, hexponent, hleast, exponent_eq_zero_or_not_dvd hleast hexponent,
    ?_, ?_⟩
  · simp only [Operand.convert, Operand.unary_number, Number.convert, Number.decimal?, hd]
  · rw [← toBinary64_of_value? hq]
    rfl

/-- The double nearest to a tenth is a little larger, by digits that all count. -/
theorem exact_expansion_tenth :
    (Binary64.ofBits 0x3fb999999999999a).isFinite = true ∧
      ∃ d, ofBinary64 (.ofBits 0x3fb999999999999a) = some d ∧
        d.coefficient = 1000000000000000055511151231257827021181583404541015625 ∧
        d.exponent = -55 ∧ IsLeast (sufficientPlaces d.value) 55 ∧
        Operand.convert (.number (.decimal d)) .float64 =
          .ok (.float64 (.ofBits 0x3fb999999999999a)) := by
  obtain ⟨d, k, hd, _, _, hexponent, hleast, _, _, hback⟩ :=
    exact_expansion (.ofBits 0x3fb999999999999a) rfl
  obtain rfl : ⟨1000000000000000055511151231257827021181583404541015625, -55, by decide⟩ = d :=
    Option.some.inj hd
  obtain rfl : 55 = k := Int.ofNat.inj (neg_injective hexponent)
  exact ⟨rfl, _, rfl, rfl, rfl, hleast, hback⟩

end Decimal

end Reckoner
