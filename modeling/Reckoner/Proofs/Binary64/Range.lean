import Reckoner.Proofs.Binary64.Interval

/-!
# Where rounding overflows and underflows

A magnitude is rounded to a positive double, unless it is so small that the nearest double is zero
or so large that it is infinite.  `Rounded` says which of the three happens and for which
magnitudes: the two thresholds are half of the least positive double and half a unit beyond the
largest one, and a tie goes to zero and to infinity.  Quotients, scaled integers and decimals are
all rounded so.
-/

namespace Reckoner

/-- A rounded quotient is at most a half away, and less if it is odd. -/
theorem roundHalfEven_near (num : ℕ) {den : ℕ} (hden : 0 < den) :
    2 * roundHalfEven num den * den ≤ 2 * num + den ∧
      2 * num ≤ 2 * roundHalfEven num den * den + den ∧
      (roundHalfEven num den % 2 = 1 → 2 * roundHalfEven num den * den < 2 * num + den ∧
        2 * num < 2 * roundHalfEven num den * den + den) := by
  have hsplit := Nat.div_add_mod num den
  have hrem := Nat.mod_lt num hden
  simp only [roundHalfEven]
  generalize num / den = quotient at *
  generalize num % den = remainder at *
  split_ifs with hless hmore heven
  · refine ⟨by nlinarith, by nlinarith, fun _ => ⟨by nlinarith, by nlinarith⟩⟩
  · refine ⟨by nlinarith, by nlinarith, fun _ => ⟨by nlinarith, by nlinarith⟩⟩
  · refine ⟨by nlinarith, by nlinarith, fun hodd => by omega⟩
  · refine ⟨by nlinarith, by nlinarith, fun hodd => by omega⟩

namespace Binary64

/-- Half a unit beyond the largest double. -/
def overflowThreshold : ℚ := 2 ^ 1024 - 2 ^ 970

/-- Half of the least positive double. -/
def underflowThreshold : ℚ := 2 ^ (-1075 : ℤ)

/-- What a magnitude is rounded to: an infinity, a zero or a double between them. -/
inductive Rounded (negative : Bool) (q : ℚ) : Binary64 → Prop
  | infinite (h : overflowThreshold ≤ q) : Rounded negative q (.infinite negative)
  | zero (h : q ≤ underflowThreshold) : Rounded negative q (zero negative)
  | finite {m : ℕ} {e : ℤ} (canonical : Canonical m e) (hm : 0 < m) (hlow : underflowThreshold < q)
      (hhigh : q < overflowThreshold) : Rounded negative q (.finite negative m e canonical)

variable {num den : ℕ}

/-- The binade in which a quotient is rounded. -/
theorem roundingExponent_binade (hnum : 0 < num) (hden : 0 < den) :
    -1074 ≤ roundingExponent num den ∧
      (num : ℚ) / den < 2 ^ (roundingExponent num den + 53) ∧
      ((2 : ℚ) ^ (roundingExponent num den + 52) ≤ num / den ∨
        roundingExponent num den = -1074) := by
  have hquotient : (0 : ℚ) < (num : ℚ) / den :=
    div_pos (by exact_mod_cast hnum) (by exact_mod_cast hden)
  have hlow := Int.zpow_log_le_self one_lt_two hquotient
  have hhigh := Int.lt_zpow_succ_log_self one_lt_two ((num : ℚ) / den)
  rw [Nat.cast_ofNat] at hlow hhigh
  rw [roundingExponent, floorLog2_eq_log hnum hden]
  generalize Int.log 2 ((num : ℚ) / den) = k at *
  refine ⟨le_max_right _ _, hhigh.trans_le (zpow_le_zpow_right₀ one_le_two (by omega)), ?_⟩
  rcases le_total (-1074) (k - 52) with hnormal | hsubnormal
  · left
    rw [max_eq_left hnormal, sub_add_cancel]
    exact hlow
  · exact Or.inr (max_eq_right hsubnormal)

/-! ## The thresholds in units of a mantissa -/

theorem overflowThreshold_eq : overflowThreshold = (2 ^ 53 - 1 / 2) * 2 ^ (971 : ℤ) := by
  have hhigh : (2 : ℚ) ^ 1024 = 2 ^ 53 * 2 ^ 971 := by rw [← pow_add]
  have hlow : (2 : ℚ) ^ 971 = 2 * 2 ^ 970 := pow_succ' 2 970
  rw [overflowThreshold, zpow_ofNat, hhigh, hlow]
  generalize (2 : ℚ) ^ 970 = unit
  ring

theorem underflowThreshold_eq : underflowThreshold = 1 / 2 * 2 ^ (-1074 : ℤ) := by
  rw [underflowThreshold, show (-1075 : ℤ) = -1 + -1074 by norm_num, zpow_add₀ (by norm_num)]
  norm_num

section

variable {m : ℕ} {e : ℤ} {t : ℚ}

theorem overflowThreshold_le (he : 971 ≤ e) (ht : 2 ^ 53 - 1 / 2 ≤ t) :
    overflowThreshold ≤ t * 2 ^ e := by
  have hpow : (2 : ℚ) ^ (971 : ℤ) ≤ 2 ^ e := zpow_le_zpow_right₀ one_le_two he
  have hpos : (0 : ℚ) < 2 ^ (971 : ℤ) := by positivity
  rw [overflowThreshold_eq]
  exact mul_le_mul ht hpow hpos.le (by linarith)

theorem lt_overflowThreshold (he : e ≤ 971) (h0 : 0 ≤ t) (ht : t < 2 ^ 53 - 1 / 2) :
    t * 2 ^ e < overflowThreshold := by
  have hpow : (2 : ℚ) ^ e ≤ 2 ^ (971 : ℤ) := zpow_le_zpow_right₀ one_le_two he
  have hpos : (0 : ℚ) < 2 ^ (971 : ℤ) := by positivity
  rw [overflowThreshold_eq]
  calc t * 2 ^ e ≤ t * 2 ^ (971 : ℤ) := mul_le_mul_of_nonneg_left hpow h0
    _ < (2 ^ 53 - 1 / 2) * 2 ^ (971 : ℤ) := mul_lt_mul_of_pos_right ht hpos

theorem two_mul_zpow_sub_one (t : ℚ) (e : ℤ) : t * 2 ^ e = 2 * t * 2 ^ (e - 1) := by
  rw [zpow_sub_one₀ (by norm_num)]
  ring

theorem lt_overflowThreshold_of_lt (he : e < 971) (h0 : 0 ≤ t) (ht : t < 2 ^ 53) :
    t * 2 ^ e < overflowThreshold := by
  have hhalf := two_mul_zpow_sub_one (t / 2) (e + 1)
  rw [add_sub_cancel_right, mul_div_cancel₀ t two_ne_zero] at hhalf
  rw [← hhalf]
  exact lt_overflowThreshold (by omega) (by linarith) (by linarith)

theorem underflowThreshold_lt (he : -1074 ≤ e) (ht : 1 / 2 < t) :
    underflowThreshold < t * 2 ^ e := by
  have hpow : (2 : ℚ) ^ (-1074 : ℤ) ≤ 2 ^ e := zpow_le_zpow_right₀ one_le_two he
  have hpos : (0 : ℚ) < 2 ^ (-1074 : ℤ) := by positivity
  rw [underflowThreshold_eq]
  nlinarith

/-- Whatever rounds to a positive mantissa is above the lower threshold. -/
theorem underflowThreshold_lt_of_nearest (he : -1074 ≤ e) (hm : 0 < m) (hlow : (m : ℚ) - 1 / 2 ≤ t)
    (hodd : m % 2 = 1 → (m : ℚ) - 1 / 2 < t) : underflowThreshold < t * 2 ^ e := by
  apply underflowThreshold_lt he
  rcases Nat.lt_or_ge m 2 with hone | htwo
  · obtain rfl : m = 1 := by omega
    have := hodd rfl
    norm_num at this
    linarith
  · have : (2 : ℚ) ≤ m := by exact_mod_cast htwo
    linarith

/-- Whatever rounds to a mantissa of 53 bits is below the upper threshold. -/
theorem lt_overflowThreshold_of_nearest (he : e ≤ 971) (hm : m < 2 ^ 53) (h0 : 0 ≤ t)
    (hbinade : t < 2 ^ 53) (hhigh : t ≤ m + 1 / 2) (hodd : m % 2 = 1 → t < m + 1 / 2) :
    t * 2 ^ e < overflowThreshold := by
  rcases he.lt_or_eq with hless | rfl
  · exact lt_overflowThreshold_of_lt hless h0 hbinade
  · apply lt_overflowThreshold le_rfl h0
    -- the largest mantissa is odd, so the tie above it is rounded away from it
    rcases Nat.lt_or_ge (m + 1) (2 ^ 53) with hless | hlargest
    · have : (m : ℚ) + 2 ≤ 2 ^ 53 := by exact_mod_cast (show m + 2 ≤ 2 ^ 53 by omega)
      linarith
    · obtain rfl : m = 2 ^ 53 - 1 := by omega
      have := hodd (by decide)
      norm_num at this ⊢
      linarith

/-- A mantissa that is nearest to a magnitude is packed into what the magnitude is rounded to. -/
theorem rounded_pack (negative : Bool) (hleast : -1074 ≤ e) (h0 : 0 ≤ t) (hbinade : t < 2 ^ 53)
    (hnormal : 2 ^ 52 ≤ t ∨ e = -1074) (hlow : (m : ℚ) - 1 / 2 ≤ t) (hhigh : t ≤ m + 1 / 2)
    (hodd : m % 2 = 1 → (m : ℚ) - 1 / 2 < t ∧ t < m + 1 / 2) :
    Rounded negative (t * 2 ^ e) (pack negative m e) := by
  have hm : m ≤ 2 ^ 53 := by
    have : (m : ℚ) < 2 ^ 53 + 1 := by linarith
    exact Nat.lt_succ_iff.1 (by exact_mod_cast this)
  have hfull : 2 ^ 52 ≤ m ∨ e = -1074 := by
    refine hnormal.imp_left fun ht => ?_
    have : (2 : ℚ) ^ 52 < m + 1 := by linarith
    exact Nat.lt_succ_iff.1 (by exact_mod_cast this)
  have htop : topBit = 2 ^ 52 := rfl
  unfold pack
  split_ifs with hcanonical hcarried
  · obtain ⟨hbound, _, hmost, _⟩ := id hcanonical
    rcases Nat.eq_zero_or_pos m with rfl | hpos
    · obtain rfl := hcanonical.exponent_of_zero
      apply Rounded.zero
      rw [underflowThreshold_eq]
      exact mul_le_mul_of_nonneg_right (by simpa using hhigh) (by positivity)
    · have habove := underflowThreshold_lt_of_nearest hleast hpos hlow fun h => (hodd h).1
      refine .finite _ hpos habove ?_
      exact lt_overflowThreshold_of_nearest hmost (by omega) h0 hbinade hhigh fun h => (hodd h).2
  · -- the carry of a mantissa of 54 bits
    have hm' : m = 2 ^ 53 := by
      have := hcarried.2.2.2
      omega
    subst hm'
    refine .finite _ (by decide) (underflowThreshold_lt hleast ?_) ?_
    · norm_num at hlow
      linarith
    · have := hcarried.2.2.1
      exact lt_overflowThreshold_of_lt (by omega) h0 hbinade
  · apply Rounded.infinite
    have hlarge : 971 < e ∨ 971 = e ∧ m = 2 ^ 53 := by
      unfold Canonical at hcanonical hcarried
      omega
    rcases hlarge with hlarge | ⟨rfl, rfl⟩
    · have ht : 2 ^ 52 ≤ t := hnormal.resolve_right (by omega)
      rw [two_mul_zpow_sub_one]
      exact overflowThreshold_le (by omega) (by linarith)
    · push_cast at hlow
      exact overflowThreshold_le le_rfl hlow

end

/-! ## What is rounded -/

theorem rounded_nearest (negative : Bool) (num : ℕ) {den : ℕ} (hden : 0 < den) :
    Rounded negative (num / den) (nearest negative num den) := by
  rcases Nat.eq_zero_or_pos num with rfl | hnum
  · rw [Nat.cast_zero, zero_div]
    exact .zero (by rw [underflowThreshold]; positivity)
  · obtain ⟨hleast, hbinade, hnormal⟩ := roundingExponent_binade hnum hden
    simp only [nearest, if_neg hnum.ne']
    generalize roundingExponent num den = e at *
    have hpow : (0 : ℚ) < 2 ^ e := by positivity
    have hunit : (0 : ℚ) < divisorAt den e := by exact_mod_cast divisorAt_pos hden e
    obtain ⟨hlow, hhigh, hodd⟩ := roundHalfEven_near (dividendAt num e) (divisorAt_pos hden e)
    -- the quotient in units of the exponent at which it is rounded
    obtain ⟨t, ht, hscaled⟩ : ∃ t : ℚ, (num : ℚ) / den = t * 2 ^ e ∧
        (dividendAt num e : ℚ) = t * divisorAt den e := by
      refine ⟨num / den / 2 ^ e, (div_mul_cancel₀ _ hpow.ne').symm, ?_⟩
      rw [← dividendAt_div_divisorAt, div_mul_cancel₀ _ hunit.ne']
    have h0 : 0 ≤ t := nonneg_of_mul_nonneg_left (hscaled ▸ Nat.cast_nonneg _) hunit
    generalize roundHalfEven (dividendAt num e) (divisorAt den e) = m at *
    rw [ht] at hbinade hnormal ⊢
    rw [show e + 53 = e + (53 : ℕ) from rfl, ← two_pow_mul_zpow] at hbinade
    rw [show e + 52 = e + (52 : ℕ) from rfl, ← two_pow_mul_zpow] at hnormal
    have hlow' : (2 * m * divisorAt den e : ℚ) ≤ 2 * dividendAt num e + divisorAt den e := by
      exact_mod_cast hlow
    have hhigh' : (2 * dividendAt num e : ℚ) ≤ 2 * m * divisorAt den e + divisorAt den e := by
      exact_mod_cast hhigh
    rw [hscaled] at hlow' hhigh'
    refine rounded_pack negative hleast h0 (lt_of_mul_lt_mul_right hbinade hpow.le)
      (hnormal.imp_left fun h => le_of_mul_le_mul_right h hpow) ?_ ?_ ?_
    · exact le_of_mul_le_mul_right (by linarith) hunit
    · exact le_of_mul_le_mul_right (by linarith) hunit
    · intro h
      obtain ⟨hless, hmore⟩ := hodd h
      have hless' : (2 * m * divisorAt den e : ℚ) < 2 * dividendAt num e + divisorAt den e := by
        exact_mod_cast hless
      have hmore' : (2 * dividendAt num e : ℚ) < 2 * m * divisorAt den e + divisorAt den e := by
        exact_mod_cast hmore
      rw [hscaled] at hless' hmore'
      exact ⟨lt_of_mul_lt_mul_right (by linarith) hunit.le,
        lt_of_mul_lt_mul_right (by linarith) hunit.le⟩

theorem rounded_nearestScaled (negative : Bool) (m : ℕ) (e : ℤ) :
    Rounded negative (m * 2 ^ e) (nearestScaled negative m e) := by
  have hvalue := scaled_eq_quotient (show 0 < 2 by decide) m e
  rw [Nat.cast_ofNat] at hvalue
  rw [← hvalue]
  exact rounded_nearest negative _ (Nat.pow_pos (by decide))

theorem rounded_ofInteger (n : ℤ) : Rounded (decide (n < 0)) |(n : ℚ)| (ofInteger n) := by
  have hvalue : |(n : ℚ)| = (n.natAbs : ℚ) / (1 : ℕ) := by
    rw [Nat.cast_one, div_one, Nat.cast_natAbs, Int.cast_abs]
  rw [hvalue]
  exact rounded_nearest _ _ Nat.one_pos

/-- A number of digits and an exponent that no double has are beyond the thresholds. -/
theorem rounded_ofDecimal (negative : Bool) (c : ℕ) (k : ℤ) :
    Rounded negative (c * 10 ^ k) (ofDecimal negative c k) := by
  simp only [ofDecimal]
  split_ifs with hzero hlarge hsmall
  · subst hzero
    rw [Nat.cast_zero, zero_mul]
    exact .zero (by rw [underflowThreshold]; positivity)
  · apply Rounded.infinite
    have hbeyond := le_of_length_repr (Nat.pos_of_ne_zero hzero) hlarge
    have hthreshold : overflowThreshold ≤ 2 ^ (1024 : ℤ) := by
      rw [overflowThreshold, zpow_ofNat, sub_le_self_iff]
      positivity
    exact hthreshold.trans (two_zpow_lt_ten_zpow.le.trans hbeyond)
  · apply Rounded.zero
    have hbelow := lt_of_length_repr (Nat.pos_of_ne_zero hzero) hsmall.le
    have hthreshold : (2 : ℚ) ^ (-1076 : ℤ) ≤ underflowThreshold :=
      zpow_le_zpow_right₀ one_le_two (by norm_num)
    exact (hbelow.trans ten_zpow_lt_two_zpow).le.trans hthreshold
  · have hvalue := scaled_eq_quotient (show 0 < 10 by decide) c k
    rw [Nat.cast_ofNat] at hvalue
    rw [← hvalue]
    exact rounded_nearest negative _ (Nat.pow_pos (by decide))

end Binary64

end Reckoner
