import Reckoner.Proofs.Binary64.Interval

/-!
# The shortest digits read back

`shortest_contains` says that the decimal found by the grid search lies in the interval of the
double, so `ofDecimal_shortest` reads it as that double again.

* The decade.  `zpow_decade_le` bounds the power of ten of the first digit from above by the value.
  The estimate is a multiple of 0.30103, which two comparisons of a power of ten with a power of two
  keep close enough to the logarithm: `10 ^ 59 < 2 ^ 196` above one and `2 ^ 93 < 10 ^ 28` below.
* One grid.  The two tests of `gridPoints` decide membership in the interval, and the nearer
  neighbour is at most half a grid step away from the value.
* The search.  A hit lies in the interval by the test.  After sixteen refinements a grid step is
  less than the width of the interval on either side, so the nearer neighbour lies in it without a
  test.
-/

namespace Reckoner

/-- The rational that a decimal stands for. -/
def Scientific.value (s : Scientific) : ℚ := s.digits * 10 ^ s.exponent

theorem Scientific.value_stripZeros (fuel : ℕ) (s : Scientific) :
    (stripZeros fuel s).value = s.value := by
  induction fuel generalizing s with
  | zero => rfl
  | succ fuel ih =>
    rw [stripZeros]
    split
    · rename_i hzero
      have hdigits : (s.digits : ℚ) = 10 * (s.digits / 10 : ℕ) := by
        exact_mod_cast (show s.digits = 10 * (s.digits / 10) by omega)
      rw [ih, value, value, zpow_add₀ (by norm_num), zpow_one, hdigits]
      ring
    · rfl

namespace Binary64

variable {m : ℕ} {e : ℤ}

/-! ## The decade of the first digit -/

theorem reachesPower_iff (m : ℕ) (e power : ℤ) :
    reachesPower m e power = true ↔ (10 : ℚ) ^ power ≤ m * 2 ^ e := by
  have hten := zpow_eq_div (show 0 < 10 by decide) power
  have htwo := zpow_eq_div (show 0 < 2 by decide) e
  rw [Nat.cast_ofNat] at hten htwo
  rw [reachesPower, decide_eq_true_iff, hten, htwo, mul_div_assoc',
    div_le_div_iff₀ (by positivity) (by positivity), ← Nat.cast_le (α := ℚ)]
  simp only [Nat.pow_eq, Nat.cast_mul, Nat.cast_pow, Nat.cast_ofNat]

/-- A multiple of 0.30103 stays within one of the decimal logarithm of a power of two. -/
theorem ten_zpow_le_two_zpow {k t : ℤ} (hlow : -1100 ≤ k) (hhigh : k ≤ 1100)
    (h : t * 100000 ≤ k * 30103) : (10 : ℚ) ^ (t - 1) ≤ 2 ^ k := by
  rcases le_or_gt 0 k with hnonneg | hneg
  · obtain ⟨n, rfl⟩ := Int.eq_ofNat_of_zero_le hnonneg
    have hroot : ((10 : ℚ) ^ (t - 1)) ^ 196 ≤ (2 ^ (n : ℤ)) ^ 196 := by
      calc ((10 : ℚ) ^ (t - 1)) ^ 196 = 10 ^ ((t - 1) * 196) := by
            rw [zpow_mul]
            rfl
        _ ≤ 10 ^ (((59 * n : ℕ) : ℤ)) := zpow_le_zpow_right₀ (by norm_num) (by push_cast; omega)
        _ = (10 ^ 59) ^ n := by rw [zpow_natCast, pow_mul]
        _ ≤ (2 ^ 196) ^ n := by
            apply pow_le_pow_left₀ (by norm_num)
            norm_num
        _ = (2 ^ (n : ℤ)) ^ 196 := by rw [zpow_natCast, ← pow_mul, ← pow_mul, mul_comm]
    exact (pow_le_pow_iff_left₀ (by positivity) (by positivity) (by decide)).1 hroot
  · obtain ⟨n, rfl⟩ : ∃ n : ℕ, k = -(n : ℤ) := ⟨(-k).toNat, by omega⟩
    have hroot : ((10 : ℚ) ^ (t - 1)) ^ 93 ≤ (2 ^ (-(n : ℤ))) ^ 93 := by
      calc ((10 : ℚ) ^ (t - 1)) ^ 93 = 10 ^ ((t - 1) * 93) := by
            rw [zpow_mul]
            rfl
        _ ≤ 10 ^ (-((28 * n : ℕ) : ℤ)) := zpow_le_zpow_right₀ (by norm_num) (by push_cast; omega)
        _ = ((10 ^ 28) ^ n)⁻¹ := by rw [zpow_neg, zpow_natCast, pow_mul]
        _ ≤ ((2 ^ 93) ^ n)⁻¹ := by
            rw [inv_le_inv₀ (by positivity) (by positivity)]
            apply pow_le_pow_left₀ (by norm_num)
            norm_num
        _ = (2 ^ (-(n : ℤ))) ^ 93 := by
            rw [zpow_neg, zpow_natCast, inv_pow, ← pow_mul, ← pow_mul, mul_comm]
    exact (pow_le_pow_iff_left₀ (by positivity) (by positivity) (by decide)).1 hroot

/-- The first digit does not count more than the value. -/
theorem zpow_decade_le (canonical : Canonical m e) (hm : 0 < m) :
    (10 : ℚ) ^ decade m e ≤ m * 2 ^ e := by
  simp only [decade]
  split
  · rename_i hreaches
    exact (reachesPower_iff m e _).1 hreaches
  split
  · rename_i hreaches
    exact (reachesPower_iff m e _).1 hreaches
  · obtain ⟨hbound, hleast, hmost, _⟩ := canonical
    have hlog : Nat.log2 m < 53 := (Nat.log2_lt hm.ne').2 hbound
    have hestimate : (10 : ℚ) ^ (((Nat.log2 m : ℤ) + e) * 30103 / 100000 - 1) ≤
        2 ^ ((Nat.log2 m : ℤ) + e) :=
      ten_zpow_le_two_zpow (by omega) (by omega) (by omega)
    have htop : (2 : ℚ) ^ Nat.log2 m ≤ m := by exact_mod_cast Nat.log2_self_le hm.ne'
    calc (10 : ℚ) ^ (((Nat.log2 m : ℤ) + e) * 30103 / 100000 - 1)
        ≤ 2 ^ ((Nat.log2 m : ℤ) + e) := hestimate
      _ = 2 ^ Nat.log2 m * 2 ^ e := by rw [zpow_add₀ (by norm_num), zpow_natCast]
      _ ≤ m * 2 ^ e := mul_le_mul_of_nonneg_right htop (by positivity)

/-! ## One grid -/

/-- The size of a grid step in quarters of the last mantissa bit, as the grid computes it. -/
theorem gridStep_eq (e grid : ℤ) :
    ((Nat.pow 10 grid.toNat * Nat.pow 2 (2 - e).toNat : ℕ) : ℚ) /
        (Nat.pow 2 (e - 2).toNat * Nat.pow 10 (-grid).toNat : ℕ) = 10 ^ grid / 2 ^ (e - 2) := by
  have hten := zpow_eq_div (show 0 < 10 by decide) grid
  have htwo := zpow_eq_div (show 0 < 2 by decide) (e - 2)
  rw [Nat.cast_ofNat] at hten htwo
  rw [hten, htwo, div_div_div_eq, neg_sub]
  simp only [Nat.pow_eq, Nat.cast_mul, Nat.cast_pow, Nat.cast_ofNat]
  rw [mul_comm ((2 : ℚ) ^ (e - 2).toNat)]

/-- The test of a grid point decides whether it lies in the interval. -/
theorem inside_iff (i : Interval) (point : ℕ) {quarter step : ℕ} (hquarter : 0 < quarter) :
    (if i.closed then
        decide (i.low * quarter ≤ point * step) && decide (point * step ≤ i.high * quarter)
      else decide (i.low * quarter < point * step) && decide (point * step < i.high * quarter)) =
        true ↔ i.Contains (point * (step / quarter)) := by
  have hpos : (0 : ℚ) < quarter := by exact_mod_cast hquarter
  have hlow : (i.low : ℚ) ≤ point * (step / quarter) ↔ i.low * quarter ≤ point * step := by
    rw [mul_div_assoc', le_div_iff₀ hpos]
    exact_mod_cast Iff.rfl
  have hhigh : (point : ℚ) * (step / quarter) ≤ i.high ↔ point * step ≤ i.high * quarter := by
    rw [mul_div_assoc', div_le_iff₀ hpos]
    exact_mod_cast Iff.rfl
  have hlow' : (i.low : ℚ) < point * (step / quarter) ↔ i.low * quarter < point * step := by
    rw [mul_div_assoc', lt_div_iff₀ hpos]
    exact_mod_cast Iff.rfl
  have hhigh' : (point : ℚ) * (step / quarter) < i.high ↔ point * step < i.high * quarter := by
    rw [mul_div_assoc', div_lt_iff₀ hpos]
    exact_mod_cast Iff.rfl
  rw [Interval.Contains, hlow, hhigh, hlow', hhigh']
  cases i.closed with
  | true => simp
  | false =>
    simp only [Bool.false_eq_true, if_false, Bool.and_eq_true, decide_eq_true_eq]
    constructor
    · intro h
      exact ⟨h.1.le, h.2.le, fun _ => h⟩
    · intro h
      exact h.2.2 trivial

variable {i : Interval} {grid : ℤ}

theorem quarter_pos (e grid : ℤ) : 0 < Nat.pow 2 (e - 2).toNat * Nat.pow 10 (-grid).toNat :=
  Nat.mul_pos (Nat.pow_pos (by decide)) (Nat.pow_pos (by decide))

theorem contains_of_downFits (h : (gridPoints i e grid).downFits = true) :
    i.Contains ((gridPoints i e grid).down * 10 ^ grid / 2 ^ (e - 2)) := by
  rw [mul_div_assoc, ← gridStep_eq]
  exact (inside_iff i _ (quarter_pos e grid)).1 h

theorem contains_of_upFits (h : (gridPoints i e grid).upFits = true) :
    i.Contains (((gridPoints i e grid).down + 1 : ℕ) * 10 ^ grid / 2 ^ (e - 2)) := by
  rw [mul_div_assoc, ← gridStep_eq]
  exact (inside_iff i _ (quarter_pos e grid)).1 h

theorem nearer_eq_or (p : GridPoints) : p.nearer = p.down ∨ p.nearer = p.down + 1 := by
  unfold GridPoints.nearer
  split
  · exact Or.inl rfl
  · exact Or.inr rfl
  · split
    · exact Or.inl rfl
    · exact Or.inr rfl

theorem nearer_bounds {p : GridPoints} {n step : ℕ} (hstep : 0 < step) (hdown : p.down = n / step)
    (hhalf : p.half = Ord.compare (2 * (n % step)) step) :
    2 * (p.nearer * step) ≤ 2 * n + step ∧ 2 * n ≤ 2 * (p.nearer * step) + step := by
  have hsplit := Nat.div_add_mod n step
  have hless := Nat.mod_lt n hstep
  rw [← hdown] at hsplit
  generalize n % step = remainder at *
  have hdownBounds (h : 2 * remainder ≤ step) :
      2 * (p.down * step) ≤ 2 * n + step ∧ 2 * n ≤ 2 * (p.down * step) + step := by
    constructor <;> nlinarith
  have hupBounds (h : step ≤ 2 * remainder) :
      2 * ((p.down + 1) * step) ≤ 2 * n + step ∧ 2 * n ≤ 2 * ((p.down + 1) * step) + step := by
    constructor <;> nlinarith
  unfold GridPoints.nearer
  split
  · rename_i hlt
    exact hdownBounds (Nat.compare_eq_lt.1 (hhalf.symm.trans hlt)).le
  · rename_i hgt
    exact hupBounds (Nat.compare_eq_gt.1 (hhalf.symm.trans hgt)).le
  · rename_i heq
    have htie : 2 * remainder = step := Nat.compare_eq_eq.1 (hhalf.symm.trans heq)
    split
    · exact hdownBounds htie.le
    · exact hupBounds htie.ge

/-- The nearer neighbour is at most half a grid step away from the value. -/
theorem abs_nearer_sub_le (i : Interval) (e grid : ℤ) :
    |((gridPoints i e grid).nearer : ℚ) * 10 ^ grid / 2 ^ (e - 2) - i.value| ≤
      10 ^ grid / 2 ^ (e - 2) / 2 := by
  have hstep : 0 < Nat.pow 10 grid.toNat * Nat.pow 2 (2 - e).toNat :=
    Nat.mul_pos (Nat.pow_pos (by decide)) (Nat.pow_pos (by decide))
  obtain ⟨hlow, hhigh⟩ := nearer_bounds hstep (p := gridPoints i e grid) rfl rfl
  have hpos : (0 : ℚ) < (Nat.pow 2 (e - 2).toNat * Nat.pow 10 (-grid).toNat : ℕ) := by
    exact_mod_cast quarter_pos e grid
  rw [mul_div_assoc, ← gridStep_eq]
  generalize (gridPoints i e grid).nearer = point at *
  generalize Nat.pow 10 grid.toNat * Nat.pow 2 (2 - e).toNat = step at *
  generalize Nat.pow 2 (e - 2).toNat * Nat.pow 10 (-grid).toNat = quarter at *
  have hlow' : 2 * ((point : ℚ) * step) ≤ 2 * (i.value * quarter) + step := by exact_mod_cast hlow
  have hhigh' : 2 * ((i.value : ℚ) * quarter) ≤ 2 * (point * step) + step := by
    exact_mod_cast hhigh
  have hscale : (step : ℚ) / quarter * quarter = step := div_mul_cancel₀ _ hpos.ne'
  generalize (step : ℚ) / quarter = x at *
  rw [abs_le]
  constructor <;> nlinarith

/-! ## The search -/

/-- On a fine grid the nearer neighbour lies in the interval. -/
theorem contains_nearer (hwidth : (i.value : ℚ) - i.low ≤ i.high - i.value)
    (hfine : (10 : ℚ) ^ grid / 2 ^ (e - 2) < 2 * (i.value - i.low)) :
    i.Contains ((gridPoints i e grid).nearer * 10 ^ grid / 2 ^ (e - 2)) := by
  have hclose := abs_le.1 (abs_nearer_sub_le i e grid)
  apply Interval.contains_of_lt
  · linarith [hclose.1]
  · linarith [hclose.2]

/-- The search ends inside the interval, if its last grid is fine enough. -/
theorem contains_searchGrids (hwidth : (i.value : ℚ) - i.low ≤ i.high - i.value) (refinements : ℕ)
    (hfine : (10 : ℚ) ^ (grid - refinements) / 2 ^ (e - 2) < 2 * (i.value - i.low)) :
    i.Contains ((searchGrids i e refinements grid).value / 2 ^ (e - 2)) := by
  induction refinements generalizing grid with
  | zero =>
    rw [Nat.cast_zero, sub_zero] at hfine
    exact contains_nearer hwidth hfine
  | succ refinements ih =>
    rw [searchGrids]
    split
    · rename_i hdown hup
      rcases nearer_eq_or (gridPoints i e grid) with hnearer | hnearer
      · rw [Scientific.value, hnearer]
        exact contains_of_downFits hdown
      · rw [Scientific.value, hnearer]
        exact contains_of_upFits hup
    · rename_i hdown _
      exact contains_of_downFits hdown
    · rename_i _ hup
      exact contains_of_upFits hup
    · apply ih
      rwa [sub_sub, add_comm, ← Nat.cast_succ]

/-- Seventeen digits are always enough. -/
theorem decade_fine (canonical : Canonical m e) (hm : 0 < m) :
    (10 : ℚ) ^ (decade m e - (16 : ℕ)) / 2 ^ (e - 2) <
      2 * ((interval m e).value - (interval m e).low) := by
  have hpow : (0 : ℚ) < 2 ^ e := by positivity
  have hstep : (10 : ℚ) ^ (decade m e - (16 : ℕ)) / 2 ^ (e - 2) * 10 ^ 16 ≤ 4 * m := by
    have hdecade := zpow_decade_le canonical hm
    rw [zpow_sub₀ (by norm_num), zpow_sub₀ (by norm_num), zpow_natCast, div_mul_eq_mul_div,
      div_le_iff₀ (by positivity), div_mul_cancel₀ _ (by positivity)]
    calc (10 : ℚ) ^ decade m e ≤ m * 2 ^ e := hdecade
      _ = 4 * m * (2 ^ e / 2 ^ (2 : ℤ)) := by
          norm_num
          ring
  obtain ⟨hbound, _⟩ := canonical
  simp only [interval]
  split_ifs with hpower
  · -- a power of two: the lower side is half as wide, and the mantissa half as large
    obtain ⟨rfl, _⟩ := hpower
    rw [Nat.cast_sub (by decide)]
    norm_num [topBit] at hstep ⊢
    linarith
  · have hm53 : (m : ℚ) < 2 ^ 53 := by
      unfold topBit at hbound
      exact_mod_cast (show m < 2 ^ 53 by omega)
    rw [Nat.cast_sub (by omega)]
    push_cast
    linarith

/-- The shortest digits of a double lie in its interval. -/
theorem shortest_contains (canonical : Canonical m e) (hm : 0 < m) :
    (interval m e).Contains ((shortest m e).value / 2 ^ (e - 2)) := by
  have hwidth : ((interval m e).value : ℚ) - (interval m e).low ≤
      (interval m e).high - (interval m e).value := by
    have hlow : (4 : ℚ) * m ≤ (interval m e).low + 2 := by exact_mod_cast interval_low_ge hm
    have hvalue : ((interval m e).value : ℚ) = 4 * m := by simp [interval]
    have hhigh : ((interval m e).high : ℚ) = 4 * m + 2 := by simp [interval]
    linarith
  rw [shortest, if_neg hm.ne', Scientific.value_stripZeros]
  exact contains_searchGrids hwidth 16 (decade_fine canonical hm)

/-- Every decimal of the value of the shortest digits is read as the double. -/
theorem ofDecimal_shortest (negative : Bool) (canonical : Canonical m e) (hm : 0 < m)
    {c : ℕ} {k : ℤ} (hvalue : (c : ℚ) * 10 ^ k = (shortest m e).value) :
    ofDecimal negative c k = .finite negative m e canonical :=
  ofDecimal_of_contains negative canonical hm (by rw [hvalue]; exact shortest_contains canonical hm)

end Binary64

end Reckoner
