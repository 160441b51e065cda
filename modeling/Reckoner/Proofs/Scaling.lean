import Mathlib.Data.EReal.Basic
import Mathlib.Tactic

/-!
# Integers with a scale

Doubles and decimals are both an integer times a power of a base.  Two of them meet at the smaller
of their exponents, where both have an integer coefficient.  This module says what that step keeps:

* `rescale_value`: the coefficient at a smaller exponent stands for the same rational;
* `compare_rescaled`: comparing the coefficients at a common exponent compares the rationals.

`toExtended` places a rational among the extended reals and keeps the order.  What denotes nothing
has no order: `Option.map₂ cmp` compares two denotations that may be missing.
-/

namespace Reckoner

variable {base : ℕ}

/-- The coefficient at a smaller exponent stands for the same rational. -/
theorem rescale_value (hbase : 0 < base) {low e : ℤ} (hlow : low ≤ e) (coefficient : ℤ) :
    ((coefficient * (Nat.pow base (e - low).toNat : ℕ) : ℤ) : ℚ) * (base : ℚ) ^ low =
      coefficient * (base : ℚ) ^ e := by
  have hne : (base : ℚ) ≠ 0 := by exact_mod_cast hbase.ne'
  have hpow : ((Nat.pow base (e - low).toNat : ℕ) : ℚ) = (base : ℚ) ^ (e - low) := by
    rw [Nat.pow_eq, Nat.cast_pow, ← zpow_natCast, Int.toNat_of_nonneg (by omega)]
  rw [Int.cast_mul, Int.cast_natCast, hpow, mul_assoc, ← zpow_add₀ hne, sub_add_cancel]

theorem zpow_eq_div (hbase : 0 < base) (e : ℤ) :
    (base : ℚ) ^ e = (base : ℚ) ^ e.toNat / (base : ℚ) ^ (-e).toNat := by
  have hne : (base : ℚ) ≠ 0 := by exact_mod_cast hbase.ne'
  conv_lhs => rw [← Int.toNat_sub_toNat_neg e]
  rw [zpow_sub₀ hne, zpow_natCast, zpow_natCast]

/-- A scaled natural as a quotient of naturals. -/
theorem scaled_eq_quotient (hbase : 0 < base) (c : ℕ) (k : ℤ) :
    ((c * Nat.pow base k.toNat : ℕ) : ℚ) / (Nat.pow base (-k).toNat : ℕ) = c * (base : ℚ) ^ k := by
  rw [zpow_eq_div hbase, Nat.pow_eq, Nat.pow_eq, Nat.cast_mul, Nat.cast_pow, Nat.cast_pow,
    mul_div_assoc]

theorem strictMono_mul_zpow (hbase : 0 < base) (low : ℤ) :
    StrictMono fun n : ℤ => (n : ℚ) * (base : ℚ) ^ low := by
  intro m n hmn
  have hpos : (0 : ℚ) < (base : ℚ) ^ low := zpow_pos (by exact_mod_cast hbase) low
  exact mul_lt_mul_of_pos_right (by exact_mod_cast hmn) hpos

/-- Comparing coefficients at the smaller exponent compares the rationals. -/
theorem compare_rescaled (hbase : 0 < base) (e f m n : ℤ) :
    compare (m * (Nat.pow base (e - min e f).toNat : ℕ))
        (n * (Nat.pow base (f - min e f).toNat : ℕ)) =
      cmp ((m : ℚ) * (base : ℚ) ^ e) ((n : ℚ) * (base : ℚ) ^ f) := by
  rw [← rescale_value hbase (min_le_left e f) m, ← rescale_value hbase (min_le_right e f) n,
    (strictMono_mul_zpow hbase (min e f)).cmp_map_eq, cmp_eq_compare]

/-! ## Rationals among the extended reals -/

/-- A rational as an extended real. -/
noncomputable def toExtended (q : ℚ) : EReal := ((q : ℝ) : EReal)

theorem toExtended_strictMono : StrictMono toExtended :=
  EReal.coe_strictMono.comp Rat.cast_strictMono

@[simp] theorem toExtended_inj {p q : ℚ} : toExtended p = toExtended q ↔ p = q :=
  toExtended_strictMono.injective.eq_iff

theorem cmp_toExtended (p q : ℚ) : cmp (toExtended p) (toExtended q) = cmp p q :=
  toExtended_strictMono.cmp_map_eq p q

theorem bot_lt_toExtended (q : ℚ) : ⊥ < toExtended q := EReal.bot_lt_coe _

theorem toExtended_lt_top (q : ℚ) : toExtended q < ⊤ := EReal.coe_lt_top _

/-! ## Denotations that may be missing -/

section Denotations

variable {x y : Option EReal}

theorem map₂_cmp_eq_some_eq : Option.map₂ cmp x y = some .eq ↔ ∃ v, x = some v ∧ y = some v := by
  rw [Option.map₂_eq_some_iff]
  constructor
  · intro h
    obtain ⟨v, w, hv, hw, hcmp⟩ := h
    rw [cmp_eq_eq_iff] at hcmp
    subst hcmp
    exact ⟨v, hv, hw⟩
  · intro h
    obtain ⟨v, hv, hw⟩ := h
    exact ⟨v, v, hv, hw, (cmp_eq_eq_iff v v).2 rfl⟩

theorem map₂_cmp_eq_some_lt :
    Option.map₂ cmp x y = some .lt ↔ ∃ v w, x = some v ∧ y = some w ∧ v < w := by
  rw [Option.map₂_eq_some_iff]
  constructor
  · intro h
    obtain ⟨v, w, hv, hw, hcmp⟩ := h
    exact ⟨v, w, hv, hw, (cmp_eq_lt_iff v w).1 hcmp⟩
  · intro h
    obtain ⟨v, w, hv, hw, hlt⟩ := h
    exact ⟨v, w, hv, hw, (cmp_eq_lt_iff v w).2 hlt⟩

theorem common_trans {z : Option EReal} (hxy : ∃ v, x = some v ∧ y = some v)
    (hyz : ∃ v, y = some v ∧ z = some v) : ∃ v, x = some v ∧ z = some v := by
  obtain ⟨v, hx, hy⟩ := hxy
  obtain ⟨w, hy', hz⟩ := hyz
  obtain rfl : v = w := Option.some.inj (hy.symm.trans hy')
  exact ⟨v, hx, hz⟩

theorem map₂_cmp_swap (x y : Option EReal) :
    (Option.map₂ cmp x y).map Ordering.swap = Option.map₂ cmp y x := by
  cases x with
  | none => cases y <;> rfl
  | some v =>
    cases y with
    | none => rfl
    | some w => exact congrArg some (cmp_swap v w)

end Denotations

end Reckoner
