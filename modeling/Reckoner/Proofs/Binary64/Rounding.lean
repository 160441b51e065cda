import Mathlib.Data.Int.Log
import Reckoner.Proofs.Binary64.Value

/-!
# Rounding keeps what needs no rounding

The nearest double of a quotient that is the value of a double is that double.  The argument has
three steps:

* `floorLog2_eq_log`: the exponent search computes the binary logarithm of the quotient;
* `roundingExponent_eq`: for the value of a double it gives the exponent of that double;
* `roundHalfEven_mul`: at that exponent the quotient is a whole number, so nothing is rounded.

`nearest_eq_finite` puts them together.  `Representable` names the rationals that some double has
as its value, and `value?_ofInteger` says that such an integer survives the way through a double.
-/

namespace Reckoner

theorem roundHalfEven_mul (m : ℕ) {d : ℕ} (hd : 0 < d) : roundHalfEven (m * d) d = m := by
  have hquotient : m * d / d = m := Nat.mul_div_cancel m hd
  have hremainder : m * d % d = 0 := Nat.mul_mod_left m d
  simp only [roundHalfEven, hquotient, hremainder]
  rw [if_pos (by omega)]

namespace Binary64

/-! ## The exponent search -/

theorem dividendAt_div_divisorAt (num den : ℕ) (e : ℤ) :
    (dividendAt num e : ℚ) / divisorAt den e = num / den / 2 ^ e := by
  have hpow := zpow_eq_div (show 0 < 2 by decide) e
  rw [Nat.cast_ofNat] at hpow
  simp only [dividendAt, divisorAt, Nat.pow_eq, Nat.cast_mul, Nat.cast_pow, Nat.cast_ofNat]
  rw [hpow, div_div_div_eq]

theorem divisorAt_pos {den : ℕ} (hden : 0 < den) (e : ℤ) : 0 < divisorAt den e :=
  Nat.mul_pos hden (Nat.pow_pos (by decide))

theorem dividendAt_lt_divisorAt_iff (num : ℕ) {den : ℕ} (hden : 0 < den) (e : ℤ) :
    dividendAt num e < divisorAt den e ↔ (num : ℚ) / den < 2 ^ e := by
  have hpos : (0 : ℚ) < divisorAt den e := by exact_mod_cast divisorAt_pos hden e
  rw [← Nat.cast_lt (α := ℚ), ← div_lt_one hpos, dividendAt_div_divisorAt,
    div_lt_one (zpow_pos (by norm_num) e)]

/-- The first guess of the search is at most one too large and never too small. -/
theorem log_quotient_bounds {num den : ℕ} (hnum : 0 < num) (hden : 0 < den) :
    (num.log2 : ℤ) - den.log2 - 1 ≤ Int.log 2 ((num : ℚ) / den) ∧
      Int.log 2 ((num : ℚ) / den) < (num.log2 : ℤ) - den.log2 + 1 := by
  have hnumPos : (0 : ℚ) < num := by exact_mod_cast hnum
  have hdenPos : (0 : ℚ) < den := by exact_mod_cast hden
  have hnumLow : (2 : ℚ) ^ num.log2 ≤ num := by exact_mod_cast Nat.log2_self_le hnum.ne'
  have hnumHigh : (num : ℚ) < 2 ^ (num.log2 + 1) := by exact_mod_cast Nat.lt_log2_self (n := num)
  have hdenLow : (2 : ℚ) ^ den.log2 ≤ den := by exact_mod_cast Nat.log2_self_le hden.ne'
  have hdenHigh : (den : ℚ) < 2 ^ (den.log2 + 1) := by exact_mod_cast Nat.lt_log2_self (n := den)
  constructor
  · rw [← Int.zpow_le_iff_le_log one_lt_two (div_pos hnumPos hdenPos)]
    have hexp : (num.log2 : ℤ) - den.log2 - 1 = (num.log2 : ℤ) - (den.log2 + 1 : ℕ) := by
      push_cast; ring
    rw [hexp, Nat.cast_ofNat, zpow_sub₀ (by norm_num), zpow_natCast, zpow_natCast]
    exact div_le_div₀ hnumPos.le hnumLow hdenPos hdenHigh.le
  · rw [← Int.lt_zpow_iff_log_lt one_lt_two (div_pos hnumPos hdenPos)]
    have hexp : (num.log2 : ℤ) - den.log2 + 1 = ((num.log2 + 1 : ℕ) : ℤ) - den.log2 := by
      push_cast; ring
    rw [hexp, Nat.cast_ofNat, zpow_sub₀ (by norm_num), zpow_natCast, zpow_natCast]
    exact div_lt_div₀ hnumHigh hdenLow (by positivity) (by positivity)

/-- The exponent search computes the binary logarithm of the quotient. -/
theorem floorLog2_eq_log {num den : ℕ} (hnum : 0 < num) (hden : 0 < den) :
    floorLog2 num den = Int.log 2 ((num : ℚ) / den) := by
  -- the guess is right or one too large, and the test tells which
  obtain ⟨hlow, hhigh⟩ := log_quotient_bounds hnum hden
  have hquotient : (0 : ℚ) < (num : ℚ) / den :=
    div_pos (by exact_mod_cast hnum) (by exact_mod_cast hden)
  have htest := dividendAt_lt_divisorAt_iff num hden ((num.log2 : ℤ) - den.log2)
  have hlog := Int.lt_zpow_iff_log_lt one_lt_two hquotient (x := (num.log2 : ℤ) - den.log2)
  rw [Nat.cast_ofNat] at hlog
  rw [hlog] at htest
  simp only [floorLog2, htest]
  split_ifs with hsmall <;> omega

/-! ## Quotients that are the value of a double -/

theorem log_lt_of_mantissa_lt {m bits : ℕ} {e : ℤ} (hm : 0 < m) (hlt : m < 2 ^ bits) :
    Int.log 2 ((m : ℚ) * 2 ^ e) < bits + e := by
  have hpos : (0 : ℚ) < m * 2 ^ e := by positivity
  rw [← Int.lt_zpow_iff_log_lt one_lt_two hpos, Nat.cast_ofNat, zpow_add₀ (by norm_num),
    zpow_natCast]
  exact mul_lt_mul_of_pos_right (by exact_mod_cast hlt) (by positivity)

theorem le_log_of_le_mantissa {m bits : ℕ} {e : ℤ} (hle : 2 ^ bits ≤ m) :
    bits + e ≤ Int.log 2 ((m : ℚ) * 2 ^ e) := by
  have hm : 0 < m := lt_of_lt_of_le (by positivity) hle
  have hpos : (0 : ℚ) < m * 2 ^ e := by positivity
  rw [← Int.zpow_le_iff_le_log one_lt_two hpos, Nat.cast_ofNat, zpow_add₀ (by norm_num),
    zpow_natCast]
  exact mul_le_mul_of_nonneg_right (by exact_mod_cast hle) (by positivity)

variable {num den m : ℕ} {e : ℤ}

/-- The value of a double is rounded at the exponent of that double. -/
theorem roundingExponent_eq (canonical : Canonical m e) (hm : 0 < m) (hnum : 0 < num)
    (hden : 0 < den) (hvalue : (num : ℚ) / den = m * 2 ^ e) : roundingExponent num den = e := by
  obtain ⟨hbound, hleast, _, hnormal⟩ := canonical
  have hhigh : Int.log 2 ((m : ℚ) * 2 ^ e) < (53 : ℕ) + e :=
    log_lt_of_mantissa_lt hm (by unfold topBit at hbound; omega)
  rw [roundingExponent, floorLog2_eq_log hnum hden, hvalue]
  -- a full mantissa fixes the logarithm; a shorter one is below the least exponent anyway
  rcases hnormal with hfull | hsubnormal
  · have hlow : (52 : ℕ) + e ≤ Int.log 2 ((m : ℚ) * 2 ^ e) :=
      le_log_of_le_mantissa (by unfold topBit at hfull; omega)
    omega
  · omega

/-- The nearest double of a quotient that is the value of a double is that double. -/
theorem nearest_eq_finite (negative : Bool) (canonical : Canonical m e) (hm : 0 < m)
    (hden : 0 < den) (hvalue : (num : ℚ) / den = m * 2 ^ e) :
    nearest negative num den = .finite negative m e canonical := by
  have hnum : 0 < num := by
    rcases Nat.eq_zero_or_pos num with hzero | hpos
    · rw [hzero, Nat.cast_zero, zero_div] at hvalue
      exact absurd hvalue.symm (by positivity)
    · exact hpos
  have hexponent := roundingExponent_eq canonical hm hnum hden hvalue
  have hwhole : dividendAt num e = m * divisorAt den e := by
    have hpos : (0 : ℚ) < divisorAt den e := by exact_mod_cast divisorAt_pos hden e
    have hquotient := dividendAt_div_divisorAt num den e
    rw [hvalue, mul_div_assoc, div_self (by positivity), mul_one, div_eq_iff hpos.ne'] at hquotient
    exact_mod_cast hquotient
  simp only [nearest, hexponent, hwhole]
  rw [if_neg hnum.ne', roundHalfEven_mul m (divisorAt_pos hden e), pack, dif_pos canonical]

/-! ## Rationals that a double holds -/

/-- Some double has the rational as its value. -/
def Representable (q : ℚ) : Prop := ∃ x : Binary64, x.value? = some q

/-- The double of a representable integer has the value of the integer. -/
theorem value?_ofInteger {n : ℤ} (h : Representable n) : (ofInteger n).value? = some (n : ℚ) := by
  obtain ⟨x, hx⟩ := h
  rcases eq_or_ne n 0 with rfl | hn
  · simp [ofInteger, nearest]
  cases x with
  | nan => cases hx
  | infinite => cases hx
  | finite negative m e canonical =>
    have hvalue : (signed negative m : ℚ) * 2 ^ e = n := Option.some.inj hx
    have habs : ((n.natAbs : ℕ) : ℚ) / (1 : ℕ) = m * 2 ^ e := by
      rw [Nat.cast_one, div_one, Nat.cast_natAbs, Int.cast_abs, ← hvalue, abs_signed_scaled]
    have hm : 0 < m := by
      apply Nat.pos_of_ne_zero
      rw [Ne, ← signed_scaled_eq_zero_iff, hvalue]
      exact_mod_cast hn
    have hsign : decide (n < 0) = negative := by
      have hiff : (n : ℚ) < 0 ↔ negative = true := hvalue ▸ signed_scaled_neg_iff hm e
      cases negative <;> simpa using hiff
    rw [ofInteger, nearest_eq_finite _ canonical hm Nat.one_pos habs, hsign]
    exact congrArg some hvalue

/-- Integers of at most 53 bits are representable: shifted up to 53 bits they are a mantissa. -/
theorem representable_of_natAbs_lt {n : ℤ} (h : n.natAbs < 2 ^ 53) : Representable n := by
  rcases eq_or_ne n 0 with rfl | hn
  · exact ⟨zero false, by simp⟩
  have hpos : n.natAbs ≠ 0 := Int.natAbs_ne_zero.2 hn
  have hbits : n.natAbs.log2 ≤ 52 := by
    have := (Nat.log2_lt hpos).2 h
    omega
  obtain ⟨shift, hshift⟩ : ∃ shift, 52 = n.natAbs.log2 + shift := Nat.exists_eq_add_of_le hbits
  have hlow : 2 ^ 52 ≤ n.natAbs * 2 ^ shift := by
    rw [hshift, pow_add]
    exact Nat.mul_le_mul_right _ (Nat.log2_self_le hpos)
  have hhigh : n.natAbs * 2 ^ shift < 2 ^ 53 := by
    rw [show 53 = n.natAbs.log2 + 1 + shift by omega, pow_add]
    exact Nat.mul_lt_mul_of_pos_right Nat.lt_log2_self (by positivity)
  have canonical : Canonical (n.natAbs * 2 ^ shift) (-(shift : ℤ)) := by
    unfold Canonical topBit
    omega
  refine ⟨.finite (decide (n < 0)) _ _ canonical, congrArg some ?_⟩
  have hsigned : signed (decide (n < 0)) (n.natAbs * 2 ^ shift) = n * 2 ^ shift := by
    rcases lt_or_ge n 0 with hneg | hnonneg
    · have habs : (n.natAbs : ℤ) = -n := by omega
      simp [signed, hneg, habs]
    · have habs : (n.natAbs : ℤ) = n := by omega
      simp [signed, not_lt.2 hnonneg, habs]
  rw [hsigned, zpow_neg, zpow_natCast, Int.cast_mul, Int.cast_pow, Int.cast_ofNat]
  exact mul_inv_cancel_right₀ (by positivity) _

end Binary64

end Reckoner
