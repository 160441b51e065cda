import Reckoner.Proofs.Binary64.Range
import Reckoner.Proofs.Number.Folding

/-!
# Square roots of exact numbers

The square root of an unbounded integer or a decimal is taken of its nearest double, and the sign is
looked at only there.  So the outcome depends on where the number lies among the thresholds of
rounding:

* the root of a double that is finite and not negative is finite (`isFinite_sqrt`), and gives a
  decimal;
* a number whose nearest double is infinite, or negative and not zero, has no root.
-/

namespace Reckoner

theorem floorSqrtFrom_mul_self_le {n root : ℕ} (bits : ℕ) (h : root * root ≤ n) :
    floorSqrtFrom n bits root * floorSqrtFrom n bits root ≤ n := by
  induction bits generalizing root with
  | zero => exact h
  | succ bits ih =>
    simp only [floorSqrtFrom]
    split_ifs with hcandidate
    · exact ih hcandidate
    · exact ih h

theorem floorSqrt_mul_self_le (n : ℕ) : floorSqrt n * floorSqrt n ≤ n :=
  floorSqrtFrom_mul_self_le _ (Nat.zero_le n)

namespace Binary64

theorem Rounded.isFinite_of_lt {negative : Bool} {q : ℚ} {x : Binary64} (h : Rounded negative q x)
    (hq : q < overflowThreshold) : x.isFinite = true := by
  cases h with
  | infinite hlarge => exact absurd hq (not_lt.2 hlarge)
  | zero => rfl
  | finite => rfl

/-- The mantissa of a double, widened before its root is taken, has at most 174 bits. -/
theorem floorSqrt_widened_lt {m shift : ℕ} (hm : m < 2 * topBit) (hshift : shift ≤ 121) :
    floorSqrt (m * Nat.pow 2 shift) < 2 ^ 87 := by
  have hpow : Nat.pow 2 shift ≤ 2 ^ 121 := Nat.pow_le_pow_right (by decide) hshift
  have htop : 2 * topBit = 2 ^ 53 := rfl
  have hwidened : m * Nat.pow 2 shift < 2 ^ 174 :=
    calc m * Nat.pow 2 shift ≤ m * 2 ^ 121 := Nat.mul_le_mul_left m hpow
      _ < 2 ^ 53 * 2 ^ 121 := Nat.mul_lt_mul_of_pos_right (htop ▸ hm) (by positivity)
      _ = 2 ^ 174 := by rw [← pow_add]
  have hroot := floorSqrt_mul_self_le (m * Nat.pow 2 shift)
  by_contra hlarge
  have hsquare := Nat.mul_le_mul (not_lt.1 hlarge) (not_lt.1 hlarge)
  omega

/-- Roots stay far below the largest double. -/
theorem isFinite_sqrt {m : ℕ} {e : ℤ} (canonical : Canonical m e) :
    (sqrt (.finite false m e canonical)).isFinite = true := by
  obtain ⟨hbound, _, hmost, _⟩ := id canonical
  rcases Nat.eq_zero_or_pos m with rfl | hm
  · rfl
  · have hroot := floorSqrt_widened_lt hbound (show 120 + (e % 2).toNat ≤ 121 by omega)
    simp only [sqrt, if_neg hm.ne', if_neg Bool.false_ne_true]
    apply (rounded_nearestScaled false _ _).isFinite_of_lt
    have hmantissa {root inexact : ℕ} (hroot : root < 2 ^ 87) (hinexact : inexact ≤ 1) :
        ((2 * root + inexact : ℕ) : ℚ) < 2 ^ 88 := by
      exact_mod_cast (show 2 * root + inexact < 2 ^ 88 by omega)
    have hexponent : (2 : ℚ) ^ ((e - (120 + (e % 2).toNat : ℕ)) / 2 - 1) ≤ 2 ^ (424 : ℤ) :=
      zpow_le_zpow_right₀ one_le_two (by omega)
    calc _ < 2 ^ 88 * (2 : ℚ) ^ ((e - (120 + (e % 2).toNat : ℕ)) / 2 - 1) :=
          mul_lt_mul_of_pos_right (hmantissa hroot (by split_ifs <;> decide)) (by positivity)
      _ ≤ 2 ^ 88 * 2 ^ (424 : ℤ) := mul_le_mul_of_nonneg_left hexponent (by positivity)
      _ = 1 * 2 ^ (512 : ℤ) := by rw [two_pow_mul_zpow, one_mul]; norm_num
      _ < overflowThreshold := lt_overflowThreshold_of_lt (by norm_num) zero_le_one (by norm_num)

end Binary64

namespace Number

/-- An exact number is rounded to a double by its sign and its magnitude. -/
theorem rounded_toBinary64 {a : Number} {q : ℚ} (ha : a.IsExact) (hq : a.value? = some q) :
    Binary64.Rounded (decide (q < 0)) |q| a.toBinary64 := by
  obtain ⟨n, rfl⟩ | ⟨d, rfl⟩ := isExact_iff.1 ha
  · obtain rfl : (n : ℚ) = q := Option.some.inj hq
    have hsign : decide ((n : ℚ) < 0) = decide (n < 0) := decide_eq_decide.2 Int.cast_lt_zero
    rw [hsign]
    exact Binary64.rounded_ofInteger n
  · obtain rfl : d.value = q := Option.some.inj hq
    have hsign : decide (d.value < 0) = decide (d.coefficient < 0) :=
      decide_eq_decide.2 Decimal.value_neg_iff
    rw [hsign, d.abs_value]
    exact Binary64.rounded_ofDecimal _ _ _

theorem sqrtDecimal_of_isFinite {x : Binary64} (h : x.isFinite = true) :
    ∃ d, sqrtDecimal x = .ok (.decimal d) := by
  cases x with
  | finite => exact ⟨_, rfl⟩
  | nan | infinite => cases h

theorem sqrt_eq_sqrtDecimal {a : Number} (ha : a.IsExact) :
    Operand.sqrt (.number a) = sqrtDecimal a.toBinary64.sqrt := by
  obtain ⟨n, rfl⟩ | ⟨d, rfl⟩ := isExact_iff.1 ha <;> rfl

section

variable {a : Number} {q : ℚ}

/-- A number that is not negative has a root, unless its nearest double is infinite. -/
theorem sqrt_of_nonneg (ha : a.IsExact) (hq : a.value? = some q) (hnonneg : 0 ≤ q)
    (hrange : q < Binary64.overflowThreshold) :
    ∃ d, Operand.sqrt (.number a) = .ok (.decimal d) := by
  have hrounded := rounded_toBinary64 ha hq
  rw [decide_eq_false (not_lt.2 hnonneg), abs_of_nonneg hnonneg] at hrounded
  rw [sqrt_eq_sqrtDecimal ha]
  apply sqrtDecimal_of_isFinite
  generalize a.toBinary64 = x at hrounded
  cases hrounded with
  | infinite hlarge => exact absurd hrange (not_lt.2 hlarge)
  | zero => rfl
  | finite canonical => exact Binary64.isFinite_sqrt canonical

/-- A number whose nearest double is infinite has no root. -/
theorem sqrt_of_large (ha : a.IsExact) (hq : a.value? = some q)
    (hlarge : Binary64.overflowThreshold ≤ q) :
    Operand.sqrt (.number a) = .error (.arithmetic "sqrt" .notFinite) := by
  have hone : 1 < Binary64.overflowThreshold := by
    have := Binary64.lt_overflowThreshold_of_lt (show (0 : ℤ) < 971 by decide) zero_le_one
      (show (1 : ℚ) < 2 ^ 53 by norm_num)
    rwa [zpow_zero, one_mul] at this
  have hsmall : Binary64.underflowThreshold ≤ 1 :=
    zpow_le_one_of_nonpos₀ one_le_two (by norm_num)
  have hrounded := rounded_toBinary64 ha hq
  rw [decide_eq_false (by linarith), abs_of_nonneg (by linarith)] at hrounded
  rw [sqrt_eq_sqrtDecimal ha]
  generalize a.toBinary64 = x at hrounded
  cases hrounded with
  | infinite => rfl
  | zero hzero => linarith
  | finite _ _ _ hhigh => exact absurd hlarge (not_le.2 hhigh)

/-- A negative number has no root, unless its nearest double is zero. -/
theorem sqrt_of_negative (ha : a.IsExact) (hq : a.value? = some q)
    (hnegative : q < -Binary64.underflowThreshold) :
    Operand.sqrt (.number a) = .error (.arithmetic "sqrt" .notFinite) := by
  have hpos : 0 < Binary64.underflowThreshold := by
    rw [Binary64.underflowThreshold]
    positivity
  have hneg : q < 0 := by linarith
  have hrounded := rounded_toBinary64 ha hq
  rw [decide_eq_true hneg, abs_of_neg hneg] at hrounded
  rw [sqrt_eq_sqrtDecimal ha]
  generalize a.toBinary64 = x at hrounded
  cases hrounded with
  | infinite => rfl
  | zero hsmall => linarith
  | finite canonical hm =>
    rw [Binary64.sqrt, if_neg hm.ne']
    rfl

end

/-- An unbounded integer or a decimal has no square root exactly if it is negative or so large that
its nearest double is infinite; otherwise its root is a decimal.  Nothing is said about negative
decimals of a magnitude whose nearest double is zero. -/
theorem sqrt_fails_iff {a : Number} {q : ℚ} (ha : a.IsExact) (hq : a.value? = some q)
    (hvanishing : ¬(-Binary64.underflowThreshold ≤ q ∧ q < 0)) :
    ((∃ cause, Operand.sqrt (.number a) = .error (.arithmetic "sqrt" cause)) ↔
      q < 0 ∨ Binary64.overflowThreshold ≤ q) ∧
    (¬(q < 0 ∨ Binary64.overflowThreshold ≤ q) →
      ∃ d, Operand.sqrt (.number a) = .ok (.decimal d)) := by
  have hroot : ¬(q < 0 ∨ Binary64.overflowThreshold ≤ q) →
      ∃ d, Operand.sqrt (.number a) = .ok (.decimal d) := by
    intro h
    rw [not_or, not_lt, not_le] at h
    exact sqrt_of_nonneg ha hq h.1 h.2
  refine ⟨⟨?_, ?_⟩, hroot⟩
  · rintro ⟨cause, hcause⟩
    by_contra h
    obtain ⟨d, hd⟩ := hroot h
    cases hd.symm.trans hcause
  · rintro (hneg | hlarge)
    · refine ⟨_, sqrt_of_negative ha hq ?_⟩
      by_contra hsmall
      exact hvanishing ⟨not_lt.1 hsmall, hneg⟩
    · exact ⟨_, sqrt_of_large ha hq hlarge⟩

/-- A negative decimal near the least positive double, and a root of two. -/
theorem sqrt_fails_iff_tiny :
    (∃ cause, Operand.sqrt (.number (.decimal ⟨-1, -320, by decide⟩)) =
      .error (.arithmetic "sqrt" cause)) ∧
    ∃ d, Operand.sqrt (.number (.bigint 2)) = .ok (.decimal d) := by
  have hvalue : (Number.decimal ⟨-1, -320, by decide⟩).value? = some (-10 ^ (-320 : ℤ)) := by
    simp [value?, Decimal.value]
  have hten : (0 : ℚ) < 10 ^ (-320 : ℤ) := by positivity
  have hless : Binary64.underflowThreshold < 10 ^ (-320 : ℤ) := by
    rw [Binary64.underflowThreshold, zpow_neg, zpow_neg, zpow_ofNat, zpow_ofNat,
      inv_lt_inv₀ (by positivity) (by positivity)]
    exact_mod_cast (show 10 ^ 320 < 2 ^ 1075 by decide +kernel)
  have htwo : (2 : ℚ) < Binary64.overflowThreshold := by
    have := Binary64.lt_overflowThreshold_of_lt (show (0 : ℤ) < 971 by decide) zero_le_two
      (show (2 : ℚ) < 2 ^ 53 by norm_num)
    rwa [zpow_zero, mul_one] at this
  constructor
  · refine (sqrt_fails_iff (Or.inr rfl) hvalue ?_).1.2 (Or.inl (by linarith))
    rintro ⟨hsmall, _⟩
    linarith
  · refine (sqrt_fails_iff (Or.inl rfl) (show (Number.bigint 2).value? = some 2 from rfl) ?_).2 ?_
    · rintro ⟨_, hneg⟩
      linarith
    · rintro (hneg | hlarge) <;> linarith

/-- A positive decimal beyond all doubles has no square root. -/
theorem not_sqrt_fails_iff_negative :
    ¬∀ (a : Number) (q : ℚ), a.IsExact → a.value? = some q →
      ((∃ cause, Operand.sqrt (.number a) = .error (.arithmetic "sqrt" cause)) ↔ q < 0) := by
  intro h
  have hrounded : (Number.decimal ⟨1, 400, by decide⟩).toBinary64 = .infinite false := by
    decide +kernel
  have hroot : Operand.sqrt (.number (.decimal ⟨1, 400, by decide⟩)) =
      .error (.arithmetic "sqrt" .notFinite) := by
    rw [sqrt_eq_sqrtDecimal (Or.inr rfl), hrounded]
    rfl
  have hneg := (h (.decimal ⟨1, 400, by decide⟩) _ (Or.inr rfl) rfl).1 ⟨.notFinite, hroot⟩
  have hpos : (0 : ℚ) < Decimal.value ⟨1, 400, by decide⟩ := by
    rw [Decimal.value]
    positivity
  linarith

end Number

end Reckoner
