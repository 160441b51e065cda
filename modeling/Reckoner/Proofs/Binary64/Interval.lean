import Reckoner.Binary64.Shortest
import Reckoner.Proofs.Binary64.Rounding

/-!
# The interval of a double

`interval` names the reals that round to a double, in quarters of its last mantissa bit.  This
module proves that they do: `nearest_of_contains` says that every quotient inside the interval of a
double has that double as its nearest one, and `ofDecimal_of_contains` says the same of a decimal.

The proof splits where the doubles change their density.  Inside the binade of the double the
quotient is rounded at the exponent of the double (`nearest_of_exponent`).  Only a power of two has
quotients of its interval below its binade; they are rounded one exponent lower, up to a mantissa of
54 bits, which `pack` carries back (`nearest_of_below`).
-/

namespace Reckoner

/-- A natural that is at most a half away is the rounded quotient, if it is even or nearer. -/
theorem roundHalfEven_eq {num den m : ℕ} (hden : 0 < den) (hlow : 2 * m * den ≤ 2 * num + den)
    (hhigh : 2 * num ≤ 2 * m * den + den)
    (htie : m % 2 = 0 ∨ (2 * m * den < 2 * num + den ∧ 2 * num < 2 * m * den + den)) :
    roundHalfEven num den = m := by
  have hsplit := Nat.div_add_mod num den
  have hrem := Nat.mod_lt num hden
  simp only [roundHalfEven]
  generalize num / den = quotient at *
  generalize num % den = remainder at *
  have hle : m ≤ quotient + 1 := by
    by_contra hgt
    nlinarith [Nat.mul_le_mul_right den (show quotient + 2 ≤ m by omega)]
  have hge : quotient ≤ m := by
    by_contra hlt
    nlinarith [Nat.mul_le_mul_right den (show m + 1 ≤ quotient by omega)]
  -- the quotient rounds down to `m` or up to it, and the test on the remainder tells which
  rcases (show m = quotient ∨ m = quotient + 1 by omega) with rfl | rfl
  · have hhalf : 2 * remainder ≤ den := by nlinarith
    rw [if_neg (show ¬den < 2 * remainder by omega)]
    split_ifs with hless heven
    · rfl
    · rfl
    · have := htie.resolve_left heven
      nlinarith
  · have hhalf : den ≤ 2 * remainder := by nlinarith
    rw [if_neg (show ¬2 * remainder < den by omega)]
    split_ifs with hmore heven
    · rfl
    · have := htie.resolve_left (by omega)
      nlinarith
    · rfl

namespace Binary64

/-- Whether a rational, in quarters of the last mantissa bit, lies in an interval. -/
def Interval.Contains (i : Interval) (x : ℚ) : Prop :=
  (i.low : ℚ) ≤ x ∧ x ≤ i.high ∧ (i.closed = false → (i.low : ℚ) < x ∧ x < i.high)

theorem Interval.contains_of_lt {i : Interval} {x : ℚ} (hlow : (i.low : ℚ) < x)
    (hhigh : x < i.high) : i.Contains x :=
  ⟨hlow.le, hhigh.le, fun _ => ⟨hlow, hhigh⟩⟩

variable {num den m : ℕ} {e : ℤ}

theorem two_pow_mul_zpow (bits : ℕ) (k : ℤ) : (2 : ℚ) ^ bits * 2 ^ k = 2 ^ (k + bits) := by
  rw [← zpow_natCast, ← zpow_add₀ (by norm_num), add_comm]

/-! ## The bounds of an interval -/

theorem interval_low_ge (hm : 0 < m) : 4 * m ≤ (interval m e).low + 2 := by
  simp only [interval]
  split_ifs <;> omega

theorem interval_low_pos (hm : 0 < m) : 0 < (interval m e).low := by
  simp only [interval]
  split_ifs <;> omega

theorem closed_interval_iff : (interval m e).closed = true ↔ m % 2 = 0 := by
  simp [interval]

theorem interval_contains_value (hm : 0 < m) :
    (interval m e).Contains ((m : ℚ) * 2 ^ e / 2 ^ (e - 2)) := by
  have hquarters : (m : ℚ) * 2 ^ e / 2 ^ (e - 2) = (4 * m : ℕ) := by
    rw [mul_div_assoc, ← zpow_sub₀ (by norm_num), sub_sub_cancel]
    push_cast
    ring
  have hlow : (interval m e).low < 4 * m := by
    simp only [interval]
    split_ifs <;> omega
  have hhigh : 4 * m < (interval m e).high := by simp [interval]
  rw [hquarters]
  exact Interval.contains_of_lt (by exact_mod_cast hlow) (by exact_mod_cast hhigh)

theorem Interval.Contains.low_le {x : ℚ} (h : (interval m e).Contains (x / 2 ^ (e - 2))) :
    ((interval m e).low : ℚ) * 2 ^ (e - 2) ≤ x :=
  (le_div_iff₀ (by positivity)).1 h.1

/-- Nothing that rounds to a double reaches beyond its binade. -/
theorem Interval.Contains.lt_binade {x : ℚ} (hm : m < 2 * topBit)
    (h : (interval m e).Contains (x / 2 ^ (e - 2))) : x < 2 ^ (e + 53) := by
  have hpow : (0 : ℚ) < 2 ^ (e - 2) := by positivity
  have hm53 : (m : ℚ) + 1 ≤ 2 ^ 53 := by
    unfold topBit at hm
    exact_mod_cast (show m + 1 ≤ 2 ^ 53 by omega)
  calc x ≤ (4 * m + 2) * 2 ^ (e - 2) := by simpa [interval] using (div_le_iff₀ hpow).1 h.2.1
    _ < 2 ^ 55 * 2 ^ (e - 2) := by
        apply mul_lt_mul_of_pos_right _ hpow
        linarith
    _ = 2 ^ (e + 53) := by
        rw [two_pow_mul_zpow]
        congr 1
        push_cast
        ring

/-- Rounding at the exponent of the double gives its mantissa. -/
theorem roundHalfEven_of_contains (hm : 0 < m) (hden : 0 < den)
    (h : (interval m e).Contains ((num : ℚ) / den / 2 ^ (e - 2))) :
    roundHalfEven (dividendAt num e) (divisorAt den e) = m := by
  have hpos : (0 : ℚ) < divisorAt den e := by exact_mod_cast divisorAt_pos hden e
  have hquarters : (num : ℚ) / den / 2 ^ (e - 2) =
      4 * ((dividendAt num e : ℚ) / divisorAt den e) := by
    rw [dividendAt_div_divisorAt, zpow_sub₀ (by norm_num)]
    norm_num
    ring
  obtain ⟨hlow, hhigh, hopen⟩ := h
  rw [hquarters] at hlow hhigh hopen
  have hlowest : (4 : ℚ) * m ≤ (interval m e).low + 2 := by exact_mod_cast interval_low_ge hm
  have hhighest : ((interval m e).high : ℚ) = 4 * m + 2 := by simp [interval]
  rw [hhighest] at hhigh hopen
  have hscale : (dividendAt num e : ℚ) / divisorAt den e * divisorAt den e = dividendAt num e :=
    div_mul_cancel₀ _ hpos.ne'
  generalize (dividendAt num e : ℚ) / divisorAt den e = x at *
  apply roundHalfEven_eq (divisorAt_pos hden e)
  · have : (2 * m * divisorAt den e : ℚ) ≤ 2 * dividendAt num e + divisorAt den e := by nlinarith
    exact_mod_cast this
  · have : (2 * dividendAt num e : ℚ) ≤ 2 * m * divisorAt den e + divisorAt den e := by nlinarith
    exact_mod_cast this
  · rcases Nat.mod_two_eq_zero_or_one m with heven | hodd
    · exact Or.inl heven
    · have hclosed : (interval m e).closed = false := by
        rw [← Bool.not_eq_true, closed_interval_iff]
        omega
      obtain ⟨hlow', hhigh'⟩ := hopen hclosed
      have hless : (2 * m * divisorAt den e : ℚ) < 2 * dividendAt num e + divisorAt den e := by
        nlinarith
      have hmore : (2 * dividendAt num e : ℚ) < 2 * m * divisorAt den e + divisorAt den e := by
        nlinarith
      exact Or.inr ⟨by exact_mod_cast hless, by exact_mod_cast hmore⟩

/-! ## Rounding a quotient inside the interval -/

/-- The exponent at which a quotient is rounded, from the binade that it lies in. -/
theorem roundingExponent_of_binade (hnum : 0 < num) (hden : 0 < den) (hleast : -1074 ≤ e)
    (hhigh : (num : ℚ) / den < 2 ^ (e + 53))
    (hlow : (2 : ℚ) ^ (e + 52) ≤ num / den ∨ e = -1074) : roundingExponent num den = e := by
  have hquotient : (0 : ℚ) < (num : ℚ) / den :=
    div_pos (by exact_mod_cast hnum) (by exact_mod_cast hden)
  have hlogHigh := Int.lt_zpow_iff_log_lt one_lt_two hquotient (x := e + 53)
  rw [Nat.cast_ofNat] at hlogHigh
  have hbelow := hlogHigh.1 hhigh
  rw [roundingExponent, floorLog2_eq_log hnum hden]
  rcases hlow with hlow | hsubnormal
  · have hlogLow := Int.zpow_le_iff_le_log one_lt_two hquotient (x := e + 52)
    rw [Nat.cast_ofNat] at hlogLow
    have habove := hlogLow.1 hlow
    omega
  · omega

theorem nearest_of_exponent (negative : Bool) (canonical : Canonical m e) (hm : 0 < m)
    (hnum : 0 < num) (hden : 0 < den) (hexponent : roundingExponent num den = e)
    (h : (interval m e).Contains ((num : ℚ) / den / 2 ^ (e - 2))) :
    nearest negative num den = .finite negative m e canonical := by
  simp only [nearest, hexponent, roundHalfEven_of_contains hm hden h]
  rw [if_neg hnum.ne', pack, dif_pos canonical]

/-- Just below a power of two the lower exponent gives a mantissa of 54 bits. -/
theorem roundHalfEven_of_below (hden : 0 < den)
    (hlow : (4 * 2 ^ 52 - 1) * 2 ^ (e - 2) ≤ (num : ℚ) / den)
    (hhigh : (num : ℚ) / den < 2 ^ (e + 52)) :
    roundHalfEven (dividendAt num (e - 1)) (divisorAt den (e - 1)) = 2 * topBit := by
  have hpow : (0 : ℚ) < 2 ^ (e - 2) := by positivity
  have hpos : (0 : ℚ) < divisorAt den (e - 1) := by exact_mod_cast divisorAt_pos hden (e - 1)
  have hquotient := dividendAt_div_divisorAt num den (e - 1)
  have hhalf : (2 : ℚ) ^ (e - 1) = 2 * 2 ^ (e - 2) := by
    rw [show e - 1 = 1 + (e - 2) by ring, zpow_add₀ (by norm_num), zpow_one]
  rw [show e + 52 = e - 2 + (54 : ℕ) by push_cast; ring, ← two_pow_mul_zpow] at hhigh
  rw [hhalf, div_eq_div_iff hpos.ne' (by positivity)] at hquotient
  -- in units of the lower exponent the quotient is less than a half below `2 ^ 53`
  have htop : (topBit : ℚ) = 2 ^ 52 := by norm_num [topBit]
  have hbelow : (dividendAt num (e - 1) : ℚ) < 2 ^ 53 * divisorAt den (e - 1) := by
    nlinarith
  have habove : (2 ^ 53 - 1 / 2) * (divisorAt den (e - 1) : ℚ) ≤ dividendAt num (e - 1) := by
    nlinarith
  apply roundHalfEven_eq (divisorAt_pos hden (e - 1))
  · have : (2 * (2 * topBit) * divisorAt den (e - 1) : ℚ) ≤
        2 * dividendAt num (e - 1) + divisorAt den (e - 1) := by
      rw [htop]
      linarith
    exact_mod_cast this
  · have : (2 * dividendAt num (e - 1) : ℚ) ≤
        2 * (2 * topBit) * divisorAt den (e - 1) + divisorAt den (e - 1) := by
      rw [htop]
      linarith
    exact_mod_cast this
  · exact Or.inl (by decide)

/-- Just below a power of two the mantissa is rounded up to a 54th bit, which is carried back. -/
theorem nearest_of_below (negative : Bool) (canonical : Canonical topBit e) (hnum : 0 < num)
    (hden : 0 < den) (hleast : -1074 < e) (hlow : (4 * 2 ^ 52 - 1) * 2 ^ (e - 2) ≤ (num : ℚ) / den)
    (hhigh : (num : ℚ) / den < 2 ^ (e + 52)) :
    nearest negative num den = .finite negative topBit e canonical := by
  have hpow : (0 : ℚ) < 2 ^ (e - 2) := by positivity
  have hexponent : roundingExponent num den = e - 1 := by
    apply roundingExponent_of_binade hnum hden (by omega)
    · rwa [show e - 1 + 53 = e + 52 by ring]
    · left
      calc (2 : ℚ) ^ (e - 1 + 52) = 2 ^ 53 * 2 ^ (e - 2) := by
            rw [two_pow_mul_zpow]
            congr 1
            push_cast
            ring
        _ ≤ (4 * 2 ^ 52 - 1) * 2 ^ (e - 2) := by
            apply mul_le_mul_of_nonneg_right _ hpow.le
            norm_num
        _ ≤ num / den := hlow
  have hmantissa := roundHalfEven_of_below hden hlow hhigh
  simp only [nearest, hexponent, hmantissa]
  have hcarried : Canonical (2 * topBit / 2) (e - 1 + 1) := by
    rw [Nat.mul_div_cancel_left _ (by decide), sub_add_cancel]
    exact canonical
  rw [if_neg hnum.ne', pack, dif_neg (fun hcanonical => lt_irrefl _ hcanonical.1), dif_pos hcarried]
  congr 1
  exact sub_add_cancel e 1

/-- Every positive quotient in the interval of a double has that double as its nearest one. -/
theorem nearest_of_contains (negative : Bool) (canonical : Canonical m e) (hm : 0 < m)
    (hden : 0 < den) (h : (interval m e).Contains ((num : ℚ) / den / 2 ^ (e - 2))) :
    nearest negative num den = .finite negative m e canonical := by
  have hpow : (0 : ℚ) < 2 ^ (e - 2) := by positivity
  obtain ⟨hbound, hleast, _, hnormal⟩ := id canonical
  have hlow := h.low_le
  have hbinade := h.lt_binade hbound
  have hnum : 0 < num := by
    rcases Nat.eq_zero_or_pos num with rfl | hpos
    · have hlowest : (0 : ℚ) < (interval m e).low := by exact_mod_cast interval_low_pos hm
      rw [Nat.cast_zero, zero_div] at hlow
      exact absurd hlow (not_le.2 (mul_pos hlowest hpow))
    · exact hpos
  rcases hnormal with hfull | hsubnormal
  · rcases le_or_gt ((2 : ℚ) ^ (e + 52)) (num / den) with hin | hbelow
    · exact nearest_of_exponent negative canonical hm hnum hden
        (roundingExponent_of_binade hnum hden hleast hbinade (Or.inl hin)) h
    · -- a quotient below the binade leaves no choice for the mantissa
      have hless : ((interval m e).low : ℚ) < 2 ^ 54 := by
        have hwhole := lt_of_le_of_lt hlow hbelow
        rw [show e + 52 = e - 2 + (54 : ℕ) by push_cast; ring, ← two_pow_mul_zpow] at hwhole
        exact lt_of_mul_lt_mul_right hwhole hpow.le
      have hlowest := interval_low_ge (e := e) hm
      have hless' : (interval m e).low < 2 ^ 54 := by exact_mod_cast hless
      obtain rfl : m = topBit := by
        unfold topBit at hfull ⊢
        omega
      rcases eq_or_lt_of_le hleast with rfl | hgreater
      · exact nearest_of_exponent negative canonical hm hnum hden
          (roundingExponent_of_binade hnum hden hleast hbinade (Or.inr rfl)) h
      · apply nearest_of_below negative canonical hnum hden hgreater _ hbelow
        have hend : ((interval topBit e).low : ℚ) = 4 * 2 ^ 52 - 1 := by
          simp only [interval, hgreater, and_self, if_true]
          norm_num [topBit]
        rwa [hend] at hlow
  · exact nearest_of_exponent negative canonical hm hnum hden
      (roundingExponent_of_binade hnum hden hleast hbinade (Or.inr hsubnormal)) h

/-! ## Decimals inside the interval -/

/-- The number of digits of a natural tells between which powers of ten it lies. -/
theorem length_repr_bounds {c : ℕ} (hc : 0 < c) :
    10 ^ ((Nat.repr c).length - 1) ≤ c ∧ c < 10 ^ (Nat.repr c).length := by
  have hpos := Nat.length_repr_pos (n := c)
  refine ⟨?_, (Nat.length_repr_le_iff hpos).1 le_rfl⟩
  by_contra hlt
  rcases Nat.eq_zero_or_pos ((Nat.repr c).length - 1) with hone | hmore
  · rw [hone] at hlt
    omega
  · have := (Nat.length_repr_le_iff hmore).2 (not_le.1 hlt)
    omega

theorem le_of_length_repr {c : ℕ} (hc : 0 < c) {k top : ℤ} (h : top < (Nat.repr c).length + k) :
    (10 : ℚ) ^ top ≤ c * 10 ^ k := by
  have hlength := Nat.length_repr_pos (n := c)
  have hdigits : (10 : ℚ) ^ ((Nat.repr c).length - 1) ≤ c := by
    exact_mod_cast (length_repr_bounds hc).1
  calc (10 : ℚ) ^ top ≤ 10 ^ ((((Nat.repr c).length - 1 : ℕ) : ℤ) + k) :=
        zpow_le_zpow_right₀ (by norm_num) (by omega)
    _ = 10 ^ ((Nat.repr c).length - 1) * 10 ^ k := by
        rw [zpow_add₀ (by norm_num), zpow_natCast]
    _ ≤ c * 10 ^ k := mul_le_mul_of_nonneg_right hdigits (by positivity)

theorem lt_of_length_repr {c : ℕ} (hc : 0 < c) {k top : ℤ} (h : (Nat.repr c).length + k ≤ top) :
    (c : ℚ) * 10 ^ k < 10 ^ top := by
  have hdigits : (c : ℚ) < 10 ^ (Nat.repr c).length := by
    exact_mod_cast (length_repr_bounds hc).2
  calc (c : ℚ) * 10 ^ k < 10 ^ (Nat.repr c).length * 10 ^ k :=
        mul_lt_mul_of_pos_right hdigits (by positivity)
    _ = 10 ^ (((Nat.repr c).length : ℤ) + k) := by
        rw [zpow_add₀ (by norm_num), zpow_natCast]
    _ ≤ 10 ^ top := zpow_le_zpow_right₀ (by norm_num) h

/-- Numbers of more than 310 digits are beyond all doubles. -/
theorem two_zpow_lt_ten_zpow : (2 : ℚ) ^ (1024 : ℤ) < 10 ^ (310 : ℤ) := by
  rw [zpow_ofNat, zpow_ofNat]
  exact_mod_cast (show 2 ^ 1024 < 10 ^ 310 by decide +kernel)

/-- Numbers that start after 330 places are below a quarter of every positive double. -/
theorem ten_zpow_lt_two_zpow : (10 : ℚ) ^ (-330 : ℤ) < 2 ^ (-1076 : ℤ) := by
  rw [zpow_neg, zpow_neg, zpow_ofNat, zpow_ofNat, inv_lt_inv₀ (by positivity) (by positivity)]
  exact_mod_cast (show 2 ^ 1076 < 10 ^ 330 by decide +kernel)

/-- A decimal in the interval of a double is read as that double. -/
theorem ofDecimal_of_contains (negative : Bool) (canonical : Canonical m e) (hm : 0 < m) {c : ℕ}
    {k : ℤ} (h : (interval m e).Contains ((c : ℚ) * 10 ^ k / 2 ^ (e - 2))) :
    ofDecimal negative c k = .finite negative m e canonical := by
  have hpow : (0 : ℚ) < 2 ^ (e - 2) := by positivity
  have hten : (0 : ℚ) < 10 ^ k := by positivity
  obtain ⟨hbound, hleast, hmost, _⟩ := id canonical
  have hlow : (2 : ℚ) ^ (e - 2) ≤ c * 10 ^ k := by
    have hlowest : (1 : ℚ) ≤ (interval m e).low := by exact_mod_cast interval_low_pos hm
    have := h.low_le
    nlinarith
  have hhigh : (c : ℚ) * 10 ^ k ≤ 2 ^ (1024 : ℤ) :=
    (h.lt_binade hbound).le.trans (zpow_le_zpow_right₀ (by norm_num) (by omega))
  have hc : 0 < c := by
    rcases Nat.eq_zero_or_pos c with rfl | hpos
    · rw [Nat.cast_zero, zero_mul] at hlow
      exact absurd hlow (not_le.2 hpow)
    · exact hpos
  -- the two tests on the number of digits only settle magnitudes that no double has
  have htopHigh : ((Nat.repr c).length : ℤ) + k ≤ 310 := by
    by_contra hgt
    have hlarge := le_of_length_repr hc (show 310 < ((Nat.repr c).length : ℤ) + k by omega)
    exact absurd (hlarge.trans hhigh) (not_le.2 two_zpow_lt_ten_zpow)
  have htopLow : -330 ≤ ((Nat.repr c).length : ℤ) + k := by
    by_contra hlt
    have hsmall := lt_of_length_repr hc (show ((Nat.repr c).length : ℤ) + k ≤ -330 by omega)
    have hleastPow : (2 : ℚ) ^ (-1076 : ℤ) ≤ 2 ^ (e - 2) :=
      zpow_le_zpow_right₀ (by norm_num) (by omega)
    exact absurd (hleastPow.trans (hlow.trans hsmall.le)) (not_le.2 ten_zpow_lt_two_zpow)
  have hvalue := scaled_eq_quotient (show 0 < 10 by decide) c k
  rw [Nat.cast_ofNat] at hvalue
  simp only [ofDecimal]
  rw [if_neg hc.ne', if_neg (not_lt.2 htopHigh), if_neg (not_lt.2 htopLow)]
  have hden : 0 < Nat.pow 10 (-k).toNat := Nat.pow_pos (by decide)
  exact nearest_of_contains negative canonical hm hden (by rwa [hvalue])

end Binary64

end Reckoner
