import Reckoner.Proofs.Decimal.Value

/-!
# Quotients of decimals

A quotient has sixteen places.  `NearestAway` says what its coefficient is without computing it: the
nearest integer, and of two that are equally near the one farther from zero.  There is exactly one
(`NearestAway.unique`), `nearestAway_roundHalfAway` finds it for a quotient of integers, and
`quotient_nearestAway` carries that to decimals of every sign and scale.
-/

namespace Reckoner

/-- `n` is the nearest integer to `x`, the one farther from zero when two are equally near. -/
def NearestAway (x : ℚ) (n : ℤ) : Prop :=
  |x - n| ≤ 1 / 2 ∧ (|x - n| = 1 / 2 → |x| < |(n : ℚ)|)

namespace NearestAway

variable {x : ℚ} {m n : ℤ}

theorem neg (h : NearestAway x n) : NearestAway (-x) (-n) := by
  have hdistance : |-x - ((-n : ℤ) : ℚ)| = |x - n| := by
    rw [Int.cast_neg, ← abs_neg]
    congr 1
    ring
  refine ⟨hdistance ▸ h.1, ?_⟩
  intro hhalf
  rw [hdistance] at hhalf
  rw [abs_neg, Int.cast_neg, abs_neg]
  exact h.2 hhalf

/-- Above zero the nearest integer lies in the half-open unit interval around `x`. -/
theorem of_floor {k : ℕ} (hlow : (k : ℚ) ≤ x + 1 / 2) (hhigh : x + 1 / 2 < k + 1) (hx : 0 ≤ x) :
    NearestAway x k := by
  rw [NearestAway, Int.cast_natCast]
  refine ⟨abs_le.2 ⟨by linarith, by linarith⟩, ?_⟩
  intro hhalf
  rw [abs_of_nonneg hx, abs_of_nonneg (Nat.cast_nonneg k)]
  rcases (abs_eq (by norm_num)).1 hhalf with habove | hbelow <;> linarith

/-- Two different nearest integers are one apart with `x` in the middle, so they cannot both be
farther from zero. -/
theorem unique (hm : NearestAway x m) (hn : NearestAway x n) : m = n := by
  wlog hlt : m < n generalizing m n with hother
  · rcases lt_trichotomy m n with h | h | h
    · exact absurd h hlt
    · exact h
    · exact (hother hn hm h).symm
  exfalso
  have hstep : (m : ℚ) + 1 ≤ n := by exact_mod_cast hlt
  obtain ⟨hmLow, hmHigh⟩ := abs_le.1 hm.1
  obtain ⟨hnLow, hnHigh⟩ := abs_le.1 hn.1
  have hmEq : x - m = 1 / 2 := by linarith
  have hnEq : x - n = -(1 / 2) := by linarith
  have hmFar := hm.2 (by rw [hmEq]; norm_num)
  have hnFar := hn.2 (by rw [hnEq]; norm_num)
  -- whichever of the two is nearer to zero is not farther from it than `x`
  rcases le_or_gt 0 m with hsign | hsign
  · have hmNonneg : (0 : ℚ) ≤ m := by exact_mod_cast hsign
    rw [abs_of_nonneg hmNonneg, abs_of_nonneg (by linarith)] at hmFar
    linarith
  · have hmLe : (m : ℚ) ≤ -1 := by exact_mod_cast Int.le_sub_one_of_lt hsign
    rw [abs_of_nonpos (by linarith), abs_of_nonpos (by linarith)] at hnFar
    linarith

end NearestAway

theorem intCast_div_eq (num den : ℤ) :
    (num : ℚ) / den =
      if (num < 0) = (den < 0) then (num.natAbs : ℚ) / den.natAbs
      else -((num.natAbs : ℚ) / den.natAbs) := by
  rw [Nat.cast_natAbs, Nat.cast_natAbs]
  rcases lt_or_ge num 0 with hnum | hnum <;> rcases lt_or_ge den 0 with hden | hden
  · rw [abs_of_neg hnum, abs_of_neg hden, if_pos (by simp [hnum, hden]), Int.cast_neg, Int.cast_neg,
      neg_div_neg_eq]
  · rw [abs_of_neg hnum, abs_of_nonneg hden, if_neg (by simp [hnum, hden]), Int.cast_neg, neg_div,
      neg_neg]
  · rw [abs_of_nonneg hnum, abs_of_neg hden, if_neg (by simp [hnum, hden]), Int.cast_neg, div_neg,
      neg_neg]
  · rw [abs_of_nonneg hnum, abs_of_nonneg hden, if_pos (by simp [hnum.not_gt, hden.not_gt])]

/-- Rounding a quotient of integers finds its nearest integer. -/
theorem nearestAway_roundHalfAway (num : ℤ) {den : ℤ} (hden : den ≠ 0) :
    NearestAway ((num : ℚ) / den) (roundHalfAway num den) := by
  have hpos : 0 < den.natAbs := Int.natAbs_pos.2 hden
  have hdenPos : (0 : ℚ) < den.natAbs := by exact_mod_cast hpos
  -- adding half a divisor before the division turns the floor into rounding
  have hmagnitude : NearestAway ((num.natAbs : ℚ) / den.natAbs)
      ((2 * num.natAbs + den.natAbs) / (2 * den.natAbs) : ℕ) := by
    have hhalf : (num.natAbs : ℚ) / den.natAbs + 1 / 2 =
        ((2 * num.natAbs + den.natAbs : ℕ) : ℚ) / (2 * den.natAbs : ℕ) := by
      push_cast
      field_simp
    refine NearestAway.of_floor ?_ ?_ (by positivity)
    · rw [hhalf, le_div_iff₀ (by positivity)]
      exact_mod_cast Nat.div_mul_le_self _ _
    · rw [hhalf, div_lt_iff₀ (by positivity)]
      have hpos : 0 < 2 * den.natAbs := by omega
      have hlt := Nat.lt_mul_div_succ (2 * num.natAbs + den.natAbs) hpos
      rw [mul_comm (2 * den.natAbs)] at hlt
      exact_mod_cast hlt
  rw [intCast_div_eq]
  simp only [roundHalfAway]
  split_ifs
  · exact hmagnitude
  · exact hmagnitude.neg

example : roundHalfAway (-5) 10 = -1 := by decide

namespace Decimal

/-- Quotient of the values, scaled to sixteen places, as the quotient of integers that is
rounded. -/
theorem scaled_quotient (a b : Decimal) :
    a.value / b.value * 10 ^ divisionScale =
      ((a.coefficient * (Nat.pow 10 (a.exponent - b.exponent + divisionScale).toNat : ℕ) : ℤ) : ℚ) /
        ((b.coefficient *
          (Nat.pow 10 (-(a.exponent - b.exponent + divisionScale)).toNat : ℕ) : ℤ) : ℚ) := by
  have hten : (10 : ℚ) ≠ 0 := by norm_num
  have hpow := zpow_eq_div (show 0 < 10 by decide) (a.exponent - b.exponent + divisionScale)
  rw [Nat.cast_ofNat, zpow_add₀ hten, zpow_sub₀ hten, zpow_natCast] at hpow
  simp only [value, Nat.pow_eq]
  push_cast
  rw [mul_div_mul_comm, mul_div_mul_comm, ← hpow]
  ring

/-- The quotient by a decimal other than zero has sixteen places and is rounded once. -/
theorem quotient_nearestAway {a b : Decimal} (hb : b.value ≠ 0)
    (hfits : FitsInt32 (a.exponent - b.exponent + divisionScale)) :
    ∃ q, a.quotient b = some q ∧ q.exponent = -divisionScale ∧
      NearestAway (a.value / b.value * 10 ^ divisionScale) q.coefficient := by
  refine ⟨_, if_pos hfits, rfl, ?_⟩
  rw [scaled_quotient]
  apply nearestAway_roundHalfAway
  have hcoefficient : b.coefficient ≠ 0 := fun hzero => hb (value_eq_zero_iff.2 hzero)
  have hpow : ((Nat.pow 10 (-(a.exponent - b.exponent + divisionScale)).toNat : ℕ) : ℤ) ≠ 0 := by
    rw [Nat.pow_eq]
    positivity
  exact mul_ne_zero hcoefficient hpow

end Decimal

end Reckoner
