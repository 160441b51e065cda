import Mathlib.Tactic

/-!
# Machine words

What the arithmetic of signed words means, stated without computing it.

* `Wrapped w z m`: `m` is the signed word of `w` bits that differs from `z` by a multiple of
  `2 ^ w`.  `wrapped_iff_bmod` says that there is exactly one and which.
* `truncated x`: `x` without its fraction.  `truncated_div` says that the quotient of machine
  integers is the exact quotient without its fraction, and `tdiv_remainder` what is left over.
* `bmod_tdiv_ne_iff`: the one quotient of words that does not fit.
-/

namespace Reckoner

/-- `m` is a signed word of `w` bits that is congruent to `z` modulo `2 ^ w`. -/
def Wrapped (w : ℕ) (z : ℚ) (m : ℤ) : Prop :=
  -2 ^ (w - 1) ≤ m ∧ m < 2 ^ (w - 1) ∧ ∃ turns : ℤ, (m : ℚ) = z + turns * 2 ^ w

/-- Exactly one word is congruent to an integer: its balanced residue. -/
theorem wrapped_iff_bmod {w : ℕ} (hw : 0 < w) (z m : ℤ) :
    Wrapped w z m ↔ z.bmod (2 ^ w) = m := by
  obtain ⟨bits, rfl⟩ := Nat.exists_eq_succ_of_ne_zero hw.ne'
  have hhalf : ((2 ^ (bits + 1) : ℕ) : ℤ) = 2 * 2 ^ bits := by
    push_cast
    ring
  have hcongruent : (∃ turns : ℤ, (m : ℚ) = z + turns * 2 ^ (bits + 1)) ↔
      ((2 ^ (bits + 1) : ℕ) : ℤ) ∣ m - z := by
    constructor
    · intro hturns
      obtain ⟨turns, hturns⟩ := hturns
      refine ⟨turns, ?_⟩
      have hint : m = z + turns * 2 ^ (bits + 1) := by exact_mod_cast hturns
      rw [hint]
      push_cast
      ring
    · intro hdvd
      obtain ⟨turns, hturns⟩ := hdvd
      refine ⟨turns, ?_⟩
      have hint : m = z + turns * 2 ^ (bits + 1) := by
        push_cast at hturns
        linarith
      exact_mod_cast hint
  rw [Int.bmod_eq_iff (by positivity), Wrapped, hcongruent, hhalf, Nat.succ_sub_one]
  have hlow : 2 * (2 : ℤ) ^ bits / 2 = 2 ^ bits := by omega
  have hhigh : (2 * (2 : ℤ) ^ bits + 1) / 2 = 2 ^ bits := by omega
  rw [hlow, hhigh]

/-! ## Truncated division -/

/-- A rational without its fraction. -/
def truncated (x : ℚ) : ℤ := if 0 ≤ x then ⌊x⌋ else ⌈x⌉

/-- The remainder of truncated division is smaller than the divisor and has the sign of the
dividend. -/
theorem tdiv_remainder (i : ℤ) {j : ℤ} (hj : j ≠ 0) :
    i = i.tdiv j * j + i.tmod j ∧ |i.tmod j| < |j| ∧
      (i.tmod j = 0 ∨ (i.tmod j).sign = i.sign) := by
  refine ⟨(Int.tdiv_mul_add_tmod i j).symm, ?_, ?_⟩
  · rw [Int.abs_eq_natAbs, Int.abs_eq_natAbs, Int.natAbs_tmod]
    exact_mod_cast Nat.mod_lt _ (Int.natAbs_pos.2 hj)
  · by_cases hdvd : j ∣ i
    · exact Or.inl (Int.tmod_eq_zero_of_dvd hdvd)
    · right
      rw [Int.sign_tmod, if_neg hdvd]

/-- The fraction that truncated division drops lies on the same side of zero as the quotient. -/
theorem tmod_div_side (i j : ℤ) : 0 ≤ (i.tmod j : ℚ) / j * ((i : ℚ) / j) := by
  have hproduct : 0 ≤ i.tmod j * i := by
    rcases le_total 0 i with hi | hi
    · exact mul_nonneg (Int.tmod_nonneg j hi) hi
    · have hneg : 0 ≤ (-i).tmod j := Int.tmod_nonneg j (by omega)
      rw [Int.neg_tmod] at hneg
      exact mul_nonneg_of_nonpos_of_nonpos (by omega) hi
  rw [div_mul_div_comm]
  exact div_nonneg (by exact_mod_cast hproduct) (mul_self_nonneg _)

/-- Truncated division drops the fraction of the exact quotient. -/
theorem truncated_div (i : ℤ) {j : ℤ} (hj : j ≠ 0) : truncated ((i : ℚ) / j) = i.tdiv j := by
  rcases eq_or_ne i 0 with rfl | hi
  · simp [truncated]
  obtain ⟨hsum, hsmall, _⟩ := tdiv_remainder i hj
  have hjRat : (j : ℚ) ≠ 0 := by exact_mod_cast hj
  have hne : (i : ℚ) / j ≠ 0 := div_ne_zero (by exact_mod_cast hi) hjRat
  have hquotient : (i : ℚ) / j = i.tdiv j + (i.tmod j : ℚ) / j := by
    rw [div_eq_iff hjRat, add_mul, div_mul_cancel₀ _ hjRat]
    exact_mod_cast hsum
  have hfraction : |(i.tmod j : ℚ) / j| < 1 := by
    rw [abs_div, div_lt_one (abs_pos.2 hjRat)]
    exact_mod_cast hsmall
  obtain ⟨hlow, hhigh⟩ := abs_lt.1 hfraction
  rw [truncated]
  split_ifs with hnonneg
  · have hside : 0 ≤ (i.tmod j : ℚ) / j :=
      nonneg_of_mul_nonneg_left (tmod_div_side i j) (lt_of_le_of_ne hnonneg hne.symm)
    rw [Int.floor_eq_iff]
    constructor <;> linarith
  · have hside : (i.tmod j : ℚ) / j ≤ 0 :=
      nonpos_of_mul_nonneg_left (tmod_div_side i j) (not_le.1 hnonneg)
    rw [Int.ceil_eq_iff]
    constructor <;> linarith

/-- The quotient of two words leaves their range only for the least word and `-1`. -/
theorem bmod_tdiv_ne_iff {w : ℕ} (hw : 0 < w) {i j : ℤ} (hlow : -2 ^ (w - 1) ≤ i)
    (hhigh : i < 2 ^ (w - 1)) (hj : j ≠ 0) :
    (i.tdiv j).bmod (2 ^ w) ≠ i.tdiv j ↔ i = -2 ^ (w - 1) ∧ j = -1 := by
  have hmagnitude : (i.tdiv j).natAbs = i.natAbs / j.natAbs := Int.natAbs_tdiv i j
  have hpos : (0 : ℤ) < 2 ^ (w - 1) := by positivity
  have hfits : (i.tdiv j).bmod (2 ^ w) = i.tdiv j ↔
      -2 ^ (w - 1) ≤ i.tdiv j ∧ i.tdiv j < 2 ^ (w - 1) := by
    rw [← wrapped_iff_bmod hw, Wrapped]
    constructor
    · intro hword
      exact ⟨hword.1, hword.2.1⟩
    · intro hrange
      exact ⟨hrange.1, hrange.2, 0, by simp⟩
  rw [Ne, hfits]
  constructor
  · intro hout
    by_contra hother
    apply hout
    by_cases hunit : j.natAbs = 1
    · rcases Int.natAbs_eq_iff.1 hunit with rfl | rfl
      · rw [Nat.cast_one, Int.tdiv_one]
        exact ⟨hlow, hhigh⟩
      · rw [Nat.cast_one, Int.tdiv_neg, Int.tdiv_one]
        omega
    · have hhalf : i.natAbs / j.natAbs ≤ i.natAbs / 2 :=
        Nat.div_le_div_left (by omega) (by decide)
      omega
  · intro hleast hrange
    rw [hleast.1, hleast.2, Int.tdiv_neg, Int.tdiv_one, neg_neg] at hrange
    omega

end Reckoner
