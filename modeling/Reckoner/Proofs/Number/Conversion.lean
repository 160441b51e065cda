import Reckoner.Number.Operand
import Reckoner.Proofs.Number.Comparison

/-!
# Conversion keeps the value

Every kind but the doubles converts exactly or not at all.

* Into the integer kinds all numbers go through the integer that they are.  `integer?_eq_some_iff`
  says that this integer is there exactly if the value of the number is an integer, whatever the
  scale of a decimal or the exponent of a double.
* Into the decimals every finite number goes with its value.

An integer that is converted to a wider kind keeps its value there, so it comes back: the doubles
are wide enough for the machine integers of 32 bits, and for no other integer kind.
-/

namespace Reckoner

/-! ## The integer that a number is -/

/-- A coefficient at an exponent that is not positive stands for an integer exactly if it is that
many times the unit. -/
theorem scaled_eq_intCast_iff {base : ℕ} (hbase : 0 < base) {e : ℤ} (he : e ≤ 0) (c z : ℤ) :
    (c : ℚ) * (base : ℚ) ^ e = z ↔ c = z * (Nat.pow base (-e).toNat : ℕ) := by
  have hvalue := rescale_value hbase he z
  rw [zpow_zero, mul_one, zero_sub] at hvalue
  rw [← hvalue, (strictMono_mul_zpow hbase e).injective.eq_iff]

/-- The integer quotient of a coefficient and a unit, if nothing is left over. -/
theorem exactQuotient_eq_some_iff {c z : ℤ} {unit : ℕ} (hunit : 0 < unit) :
    (if c.natAbs % unit = 0 then some (c.tdiv unit) else none) = some z ↔ c = z * unit := by
  have hne : (unit : ℤ) ≠ 0 := by exact_mod_cast hunit.ne'
  have hdvd : c.natAbs % unit = 0 ↔ (unit : ℤ) ∣ c := by
    rw [← Nat.dvd_iff_mod_eq_zero, ← Int.natCast_dvd]
  constructor
  · intro h
    split_ifs at h with hwhole
    rw [← Option.some.inj h, Int.tdiv_mul_cancel (hdvd.1 hwhole)]
  · rintro rfl
    rw [if_pos (hdvd.2 (Dvd.intro_left z rfl)), Int.mul_tdiv_cancel z hne]

theorem Decimal.integer?_eq_some_iff (d : Decimal) (z : ℤ) :
    d.integer? = some z ↔ d.value = (z : ℚ) := by
  rw [integer?]
  by_cases he : 0 ≤ d.exponent
  · have hvalue := coefficientAt_value he
    rw [zpow_zero, mul_one] at hvalue
    rw [if_pos he, Option.some.injEq, ← hvalue, Int.cast_inj]
  · have hscaled := scaled_eq_intCast_iff (show 0 < 10 by decide) (by omega : d.exponent ≤ 0)
      d.coefficient z
    rw [Nat.cast_ofNat] at hscaled
    rw [if_neg he, value, hscaled]
    exact exactQuotient_eq_some_iff (Nat.pow_pos (by decide))

theorem Binary64.signed_div (negative : Bool) (m unit : ℕ) :
    signed negative (m / unit) = (signed negative m).tdiv unit := by
  cases negative <;> simp [signed, Int.neg_tdiv]

theorem Binary64.integer?_eq_some_iff (x : Binary64) (z : ℤ) :
    x.integer? = some z ↔ x.value? = some (z : ℚ) := by
  cases x with
  | nan => simp [integer?, value?]
  | infinite negative => simp [integer?, value?]
  | finite negative m e canonical =>
    rw [integer?, value?, Option.some.injEq]
    by_cases he : 0 ≤ e
    · have hvalue := rescale_value (show 0 < 2 by decide) he (signed negative m)
      rw [zpow_zero, mul_one, sub_zero, Nat.cast_ofNat, ← signed_mul] at hvalue
      rw [if_pos he, Option.some.injEq, ← hvalue, Int.cast_inj]
    · have hscaled := scaled_eq_intCast_iff (show 0 < 2 by decide) (by omega : e ≤ 0)
        (signed negative m) z
      have habs : (signed negative m).natAbs = m := by cases negative <;> simp [signed]
      have hquotient := exactQuotient_eq_some_iff (c := signed negative m) (z := z)
        (Nat.pow_pos (n := (-e).toNat) (show 0 < 2 by decide))
      rw [Nat.cast_ofNat] at hscaled
      rw [habs, ← signed_div] at hquotient
      rw [if_neg he, hscaled]
      exact hquotient

namespace Number

/-- A number has an integer exactly if that is its value. -/
theorem integer?_eq_some_iff (n : Number) (z : ℤ) :
    n.integer? = some z ↔ n.value? = some (z : ℚ) := by
  cases n with
  | int32 n => simp [integer?, value?]
  | int64 n => simp [integer?, value?]
  | float64 x => exact x.integer?_eq_some_iff z
  | bigint n => simp [integer?, value?]
  | decimal d =>
    rw [value?, Option.some.injEq]
    exact d.integer?_eq_some_iff z

end Number

/-! ## Integer kinds -/

namespace Kind

/-- Whether the numbers of a kind are integers. -/
def isInteger : Kind → Bool
  | .int32 => true
  | .int64 => true
  | .bigint => true
  | _ => false

/-- The range of a kind of machine integers; the other kinds have none. -/
def Fits : Kind → ℤ → Prop
  | .int32, n => FitsInt32 n
  | .int64, n => FitsInt64 n
  | _, _ => True

instance decidableFits (k : Kind) (n : ℤ) : Decidable (k.Fits n) :=
  match k with
  | .int32 => inferInstanceAs (Decidable (FitsInt32 n))
  | .int64 => inferInstanceAs (Decidable (FitsInt64 n))
  | .float64 => inferInstanceAs (Decidable True)
  | .bigint => inferInstanceAs (Decidable True)
  | .decimal => inferInstanceAs (Decidable True)

/-- The rationals that convert to a kind: for an integer kind only the integers in its range. -/
def Admits (k : Kind) (q : ℚ) : Prop := k.isInteger = true → ∃ n : ℤ, q = n ∧ k.Fits n

/-- A wider integer kind has a larger range. -/
theorem Fits.wider {k l : Kind} {n : ℤ} (h : k.Fits n) (hwider : k.promote l = l) :
    l.Fits n := by
  cases l with
  | int32 =>
    cases k <;> cases hwider
    exact h
  | int64 =>
    cases k <;> cases hwider
    · unfold Fits FitsInt32 FitsInt64 at *
      omega
    · exact h
  | float64 => trivial
  | bigint => trivial
  | decimal => trivial

end Kind

namespace Number

/-- All integer kinds convert alike. -/
theorem convert_integer {k : Kind} (hk : k.isInteger = true) (n : Number) :
    n.convert k = match n.integer? with
      | some z =>
        if k.Fits z then .ok (ofKind k z) else .error (.arithmetic k.name (.outOfRange n.text))
      | none => .error (.arithmetic k.name (.notInteger n.text)) := by
  cases k with
  | int32 | int64 =>
    rw [convert, requireInteger]
    cases n.integer? <;> rfl
  | bigint =>
    rw [convert, requireInteger]
    cases n.integer? with
    | none => rfl
    | some z => exact (if_pos trivial).symm
  | float64 | decimal => cases hk

theorem kind_ofKind (k : Kind) (z : ℤ) : (ofKind k z).kind = k := by
  cases k <;> rfl

theorem value?_ofKind {k : Kind} (hk : k.isInteger = true) {z : ℤ} (hz : k.Fits z) :
    (ofKind k z).value? = some (z : ℚ) := by
  cases k with
  | int32 =>
    obtain ⟨hlow, hhigh⟩ := hz
    rw [ofKind, value?, Int32.toInt_ofInt_of_le (by omega) (by omega)]
  | int64 =>
    obtain ⟨hlow, hhigh⟩ := hz
    rw [ofKind, value?, Int64.toInt_ofInt_of_le (by omega) (by omega)]
  | bigint => rfl
  | float64 | decimal => cases hk

/-- A number of an integer kind is the one that its value has in that kind. -/
theorem exists_eq_ofKind {v : Number} (hv : v.kind.isInteger = true) :
    ∃ z, v = ofKind v.kind z ∧ v.kind.Fits z ∧ v.value? = some (z : ℚ) := by
  cases v with
  | int32 n =>
    refine ⟨n.toInt, ?_, ⟨n.minValue_le_toInt, n.toInt_le⟩, rfl⟩
    rw [kind, ofKind, Int32.ofInt_toInt]
  | int64 n =>
    refine ⟨n.toInt, ?_, ⟨n.minValue_le_toInt, n.toInt_le⟩, rfl⟩
    rw [kind, ofKind, Int64.ofInt_toInt]
  | bigint n => exact ⟨n, rfl, trivial, rfl⟩
  | float64 x => cases hv
  | decimal d => cases hv

/-- What has the value of a number of an integer kind converts to it. -/
theorem convert_of_value?_eq {v n : Number} (hv : v.kind.isInteger = true)
    (h : n.value? = v.value?) : n.convert v.kind = .ok v := by
  obtain ⟨z, hsame, hfits, hz⟩ := exists_eq_ofKind hv
  rw [convert_integer hv, (n.integer?_eq_some_iff z).2 (h.trans hz)]
  exact (if_pos hfits).trans (congrArg Except.ok hsame.symm)

/-- A number converts to its own kind without a change. -/
theorem convert_kind (n : Number) : n.convert n.kind = .ok n := by
  cases n with
  | int32 n => exact convert_of_value?_eq rfl rfl
  | int64 n => exact convert_of_value?_eq rfl rfl
  | float64 x => rfl
  | bigint n => rfl
  | decimal d => rfl

/-! ## Exact conversion -/

/-- A finite number converts, with its value, to every exact kind that admits the value. -/
theorem convert_of_admits {v : Number} {k : Kind} {q : ℚ} (hk : k ≠ .float64)
    (hq : v.value? = some q) (hadmits : k.Admits q) :
    ∃ r, v.convert k = .ok r ∧ r.kind = k ∧ r.value? = some q := by
  by_cases hinteger : k.isInteger = true
  · obtain ⟨z, rfl, hz⟩ := hadmits hinteger
    refine ⟨ofKind k z, ?_, kind_ofKind k z, value?_ofKind hinteger hz⟩
    rw [convert_integer hinteger, (v.integer?_eq_some_iff z).2 hq]
    exact if_pos hz
  · obtain rfl : k = .decimal := by
      cases k <;> simp_all [Kind.isInteger]
    obtain ⟨d, hd, hvalue, _⟩ := decimal?_of_value? hq
    refine ⟨.decimal d, ?_, rfl, congrArg some hvalue⟩
    rw [convert, hd]

/-- Everything else is an arithmetic error. -/
theorem convert_of_not_admits {v : Number} {k : Kind} (hk : k ≠ .float64)
    (h : ¬∃ q, v.value? = some q ∧ k.Admits q) :
    ∃ cause, v.convert k = .error (.arithmetic k.name cause) := by
  by_cases hinteger : k.isInteger = true
  · rw [convert_integer hinteger]
    cases hz : v.integer? with
    | none => exact ⟨_, rfl⟩
    | some z =>
      have hout : ¬k.Fits z := fun hfits =>
        h ⟨z, (v.integer?_eq_some_iff z).1 hz, fun _ => ⟨z, rfl, hfits⟩⟩
      exact ⟨_, if_neg hout⟩
  · obtain rfl : k = .decimal := by
      cases k <;> simp_all [Kind.isInteger]
    have hnone : v.value? = none := by
      by_contra hsome
      obtain ⟨q, hq⟩ := Option.ne_none_iff_exists'.1 hsome
      exact h ⟨q, hq, fun hcontra => absurd hcontra hinteger⟩
    refine ⟨.notFinite, ?_⟩
    rw [convert, decimal?_eq_none hnone]

/-- A number of an integer kind keeps its value in every wider kind, except for the integers of 64
bits among the doubles. -/
theorem convert_wider {v : Number} {k : Kind} (hv : v.kind.isInteger = true)
    (hwider : v.kind.promote k = k) (hexact : ¬(v.kind = .int64 ∧ k = .float64)) :
    ∃ r, v.convert k = .ok r ∧ r.value? = v.value? := by
  obtain ⟨z, _, hfits, hz⟩ := exists_eq_ofKind hv
  by_cases hk : k = .float64
  · -- the doubles are no exact kind, but have all integers of 32 bits
    subst hk
    cases v with
    | int32 n =>
      exact ⟨_, rfl, Binary64.value?_ofInteger (representable_int32 n)⟩
    | int64 n => exact absurd ⟨rfl, rfl⟩ hexact
    | bigint n => cases hwider
    | float64 x => cases hv
    | decimal d => cases hv
  · have hadmits : k.Admits (z : ℚ) := fun _ => ⟨z, rfl, hfits.wider hwider⟩
    obtain ⟨r, hr, _, hvalue⟩ := convert_of_admits hk hz hadmits
    exact ⟨r, hr, hvalue.trans hz.symm⟩

/-- Conversion to a kind other than the doubles is exact.  It succeeds exactly for the finite
numbers whose value the kind admits, with the same value in that kind, and everything else is an
arithmetic error.  So a number of an integer kind comes back from every wider kind, except for the
integers of 64 bits from the doubles. -/
theorem conversion_exact (v : Number) (k : Kind) :
    (k ≠ .float64 →
      ((∃ r, Operand.convert (.number v) k = .ok r) ↔ ∃ q, v.value? = some q ∧ k.Admits q) ∧
      (∀ r, Operand.convert (.number v) k = .ok r → r.kind = k ∧ r.value? = v.value?) ∧
      ∀ e, Operand.convert (.number v) k = .error e → ∃ cause, e = .arithmetic k.name cause) ∧
    (v.kind.isInteger = true → v.kind.promote k = k → ¬(v.kind = .int64 ∧ k = .float64) →
      ∃ r, Operand.convert (.number v) k = .ok r ∧
        Operand.convert (.number r) v.kind = .ok v) := by
  constructor
  · intro hk
    change ((∃ r, v.convert k = .ok r) ↔ _) ∧ (∀ r, v.convert k = .ok r → _) ∧
      ∀ e, v.convert k = .error e → _
    by_cases h : ∃ q, v.value? = some q ∧ k.Admits q
    · obtain ⟨q, hq, hadmits⟩ := id h
      obtain ⟨r, hr, hkind, hvalue⟩ := convert_of_admits hk hq hadmits
      rw [hr]
      refine ⟨iff_of_true ⟨r, rfl⟩ h, ?_, by simp⟩
      rintro s ⟨⟩
      exact ⟨hkind, hvalue.trans hq.symm⟩
    · obtain ⟨cause, hcause⟩ := convert_of_not_admits hk h
      rw [hcause]
      refine ⟨iff_of_false (by simp) h, by simp, ?_⟩
      rintro e ⟨⟩
      exact ⟨cause, rfl⟩
  · intro hv hwider hexact
    obtain ⟨r, hr, hvalue⟩ := convert_wider hv hwider hexact
    exact ⟨r, hr, convert_of_value?_eq hv hvalue⟩

/-- A decimal with a scale of its own becomes the greatest machine integer, which a wider kind gives
back. -/
theorem conversion_exact_greatest :
    (∃ r, Operand.convert (.number (.decimal ⟨21474836470, -1, by decide⟩)) .int32 = .ok r) ∧
      (∃ r, Operand.convert (.number (.int32 2147483647)) .float64 = .ok r ∧
        Operand.convert (.number r) .int32 = .ok (.int32 2147483647)) := by
  constructor
  · obtain ⟨⟨hiff, _⟩, _⟩ := (conversion_exact (.decimal ⟨21474836470, -1, by decide⟩) .int32).imp
      (fun h => h (by decide)) id
    refine hiff.2 ⟨2147483647, ?_, fun _ => ⟨2147483647, by norm_num, by decide⟩⟩
    norm_num [value?, Decimal.value]
  · exact (conversion_exact (.int32 2147483647) .float64).2 rfl rfl (by decide)

end Number

end Reckoner
