import Reckoner.Number.Comparison
import Reckoner.Proofs.Binary64.Rounding
import Reckoner.Proofs.Decimal.Value

/-!
# The value of a number

`value?` is the rational that a finite number of any kind denotes, and `extended?` adds the two
infinities; only not-a-number denotes nothing.

Two numbers are computed in their promoted kind.  There is one lemma per kind that says what
`align?` makes of them there.  Everything but the doubles keeps the values, and the only pairs
without a common kind are those with an infinity or not-a-number that would have to be a decimal.
-/

namespace Reckoner.Number

/-- The rational value of a finite number. -/
def value? : Number → Option ℚ
  | .int32 n => some n.toInt
  | .int64 n => some n.toInt
  | .float64 x => x.value?
  | .bigint n => some n
  | .decimal d => some d.value

/-- The extended real that a number denotes. -/
noncomputable def extended? : Number → Option EReal
  | .int32 n => some (toExtended n.toInt)
  | .int64 n => some (toExtended n.toInt)
  | .float64 x => x.extended?
  | .bigint n => some (toExtended n)
  | .decimal d => some (toExtended d.value)

/-- The exponent of a finite number as a decimal: zero for an integer, and for a double the negative
logarithm of its denominator in lowest terms. -/
def decimalExponent : Number → ℤ
  | .float64 x => -(((x.value?.getD 0).den.log2 : ℕ) : ℤ)
  | .decimal d => d.exponent
  | _ => 0

theorem extended?_of_value? {a : Number} {q : ℚ} (h : a.value? = some q) :
    a.extended? = some (toExtended q) := by
  cases a with
  | float64 x => exact Binary64.extended?_of_value? h
  | _ => exact congrArg (Option.map toExtended) h

/-! ## Numbers as decimals -/

/-- Every finite number is a decimal of the same value. -/
theorem decimal?_of_value? {a : Number} {q : ℚ} (h : a.value? = some q) :
    ∃ d, a.decimal? = some d ∧ d.value = q ∧ d.exponent = a.decimalExponent := by
  cases a with
  | float64 x =>
    have hx : x.value? = some q := h
    obtain ⟨d, hd, hvalue, hexponent⟩ := Decimal.ofBinary64_of_value? hx
    refine ⟨d, hd, hvalue, ?_⟩
    rw [hexponent, decimalExponent, hx, Option.getD_some]
  | decimal d => exact ⟨d, rfl, Option.some.inj h, rfl⟩
  | int32 n => exact ⟨_, rfl, (Decimal.value_ofInteger _).trans (Option.some.inj h), rfl⟩
  | int64 n => exact ⟨_, rfl, (Decimal.value_ofInteger _).trans (Option.some.inj h), rfl⟩
  | bigint n => exact ⟨_, rfl, (Decimal.value_ofInteger _).trans (Option.some.inj h), rfl⟩

theorem decimal?_eq_none {a : Number} (h : a.value? = none) : a.decimal? = none := by
  cases a with
  | float64 x =>
    cases x with
    | finite => cases h
    | _ => rfl
  | _ => cases h

/-! ## Two numbers in their promoted kind -/

section Alignment

variable {a b : Number}

theorem align?_int32 (h : a.kind.promote b.kind = .int32) :
    ∃ m n, align? a b = some (.int32 m n) ∧ a.value? = some (m.toInt : ℚ) ∧
      b.value? = some (n.toInt : ℚ) := by
  cases a <;> cases b <;> cases h
  case int32.int32 m n => exact ⟨m, n, rfl, rfl, rfl⟩

theorem align?_int64 (h : a.kind.promote b.kind = .int64) :
    ∃ m n, align? a b = some (.int64 m n) ∧ a.value? = some (m.toInt : ℚ) ∧
      b.value? = some (n.toInt : ℚ) := by
  cases a <;> cases b <;> cases h
  case int32.int64 m n =>
    refine ⟨m.toInt64, n, rfl, ?_, rfl⟩
    rw [Int32.toInt_toInt64]
    rfl
  case int64.int32 m n =>
    refine ⟨m, n.toInt64, rfl, rfl, ?_⟩
    rw [Int32.toInt_toInt64]
    rfl
  case int64.int64 m n => exact ⟨m, n, rfl, rfl, rfl⟩

theorem align?_bigint (h : a.kind.promote b.kind = .bigint) :
    ∃ m n, align? a b = some (.bigint m n) ∧ a.value? = some (m : ℚ) ∧ b.value? = some (n : ℚ) := by
  cases a <;> cases b <;> cases h
  case int32.bigint m n => exact ⟨m.toInt, n, rfl, rfl, rfl⟩
  case int64.bigint m n => exact ⟨m.toInt, n, rfl, rfl, rfl⟩
  case bigint.int32 m n => exact ⟨m, n.toInt, rfl, rfl, rfl⟩
  case bigint.int64 m n => exact ⟨m, n.toInt, rfl, rfl, rfl⟩
  case bigint.bigint m n => exact ⟨m, n, rfl, rfl, rfl⟩

/-- The one kind where alignment rounds: both numbers become their nearest doubles. -/
theorem align?_float64 (h : a.kind.promote b.kind = .float64) :
    align? a b = some (.float64 a.toBinary64 b.toBinary64) := by
  cases a <;> cases b <;> cases h <;> rfl

theorem align?_decimal (h : a.kind.promote b.kind = .decimal) :
    align? a b = Option.map₂ .decimal a.decimal? b.decimal? := by
  cases a <;> cases b <;> cases h <;> try rfl
  case float64.bigint x n => cases hx : Decimal.ofBinary64 x <;> simp [align?, decimal?, hx]
  case float64.decimal x d => cases hx : Decimal.ofBinary64 x <;> simp [align?, decimal?, hx]
  case bigint.float64 n x => cases hx : Decimal.ofBinary64 x <;> simp [align?, decimal?, hx]
  case decimal.float64 d x => cases hx : Decimal.ofBinary64 x <;> simp [align?, decimal?, hx]

theorem align?_decimal_of_value? {x y : ℚ} (h : a.kind.promote b.kind = .decimal)
    (ha : a.value? = some x) (hb : b.value? = some y) :
    ∃ d e, align? a b = some (.decimal d e) ∧ d.value = x ∧ e.value = y ∧
      d.exponent = a.decimalExponent ∧ e.exponent = b.decimalExponent := by
  obtain ⟨d, hd, hx, hdExponent⟩ := decimal?_of_value? ha
  obtain ⟨e, he, hy, heExponent⟩ := decimal?_of_value? hb
  refine ⟨d, e, ?_, hx, hy, hdExponent, heExponent⟩
  rw [align?_decimal h, hd, he]
  rfl

/-- Numbers that meet in the decimals have no common kind when one of them has no value. -/
theorem align?_eq_none (h : a.kind.promote b.kind = .decimal)
    (hnone : a.value? = none ∨ b.value? = none) : align? a b = none := by
  rw [align?_decimal h]
  rcases hnone with ha | hb
  · rw [decimal?_eq_none ha]
    rfl
  · rw [decimal?_eq_none hb]
    cases a.decimal? <;> rfl

end Alignment

end Reckoner.Number
