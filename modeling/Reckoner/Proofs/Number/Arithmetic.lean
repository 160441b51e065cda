import Reckoner.Number.Operand
import Reckoner.Proofs.Number.Value
import Reckoner.Proofs.Word

/-!
# Sums, differences and products across kinds

The three operations have one plan: bring both numbers to the promoted kind and compute there.
`RingOperation.apply_eq` states that plan once, and each kind then has one lemma about what is
computed in it.

* Machine integers give the word that is congruent to the exact result.
* Unbounded integers and decimals give the exact result.  A decimal keeps the smaller exponent, or
  the sum of the exponents for a product; that sum is the only thing that can be out of range.
* Doubles give a double.
-/

namespace Reckoner

/-- The operations that lose nothing outside the doubles, apart from wrapping. -/
inductive RingOperation where
  | add
  | sub
  | mul

namespace RingOperation

/-- The operator that errors name. -/
def symbol : RingOperation → String
  | .add => "+"
  | .sub => "-"
  | .mul => "*"

/-- The operation on two numbers. -/
def apply (op : RingOperation) (a b : Number) : Except NumberError Number :=
  match op with
  | .add => Operand.add (.number a) (.number b)
  | .sub => Operand.sub (.number a) (.number b)
  | .mul => Operand.mul (.number a) (.number b)

/-- The operation of the same name in any ring. -/
def exact {α : Type} [Add α] [Sub α] [Mul α] : RingOperation → α → α → α
  | .add, x, y => x + y
  | .sub, x, y => x - y
  | .mul, x, y => x * y

/-- The exponent of a result, from the exponents of the operands. -/
def exponent : RingOperation → ℤ → ℤ → ℤ
  | .mul, e, f => e + f
  | _, e, f => min e f

/-- The operation on doubles. -/
def onDoubles : RingOperation → Binary64 → Binary64 → Binary64
  | .add => Binary64.add
  | .sub => Binary64.sub
  | .mul => Binary64.mul

/-- The operation on decimals. -/
def onDecimals : RingOperation → Decimal → Decimal → Except NumberError Number
  | .add, a, b => .ok (.decimal (a.add b))
  | .sub, a, b => .ok (.decimal (a.sub b))
  | .mul, a, b => Number.mulDecimal a b

/-- The operation on two numbers of one kind. -/
def onAligned (op : RingOperation) : Aligned → Except NumberError Number
  | .int32 a b => .ok (.int32 (op.exact a b))
  | .int64 a b => .ok (.int64 (op.exact a b))
  | .float64 a b => .ok (.float64 (op.onDoubles a b))
  | .bigint a b => .ok (.bigint (op.exact a b))
  | .decimal a b => op.onDecimals a b

variable (op : RingOperation)

/-- All three operations align their operands and compute in the common kind. -/
theorem apply_eq (a b : Number) :
    op.apply a b =
      match Number.align? a b with
      | some aligned => op.onAligned aligned
      | none => .error (.arithmetic op.symbol .notFinite) := by
  cases op <;> simp only [apply, Operand.add, Operand.sub, Operand.mul, Operand.binary_number,
    Number.add, Number.sub, Number.mul, Number.align]
  all_goals
    cases Number.align? a b with
    | none => rfl
    | some aligned => cases aligned <;> rfl

theorem apply_of_align? {a b : Number} {aligned : Aligned} (h : Number.align? a b = some aligned) :
    op.apply a b = op.onAligned aligned := by
  rw [apply_eq, h]

/-! ## One kind at a time -/

theorem cast_exact (i j : ℤ) : ((op.exact i j : ℤ) : ℚ) = op.exact (i : ℚ) (j : ℚ) := by
  cases op <;> simp [exact]

theorem toInt_exact_int32 (m n : Int32) :
    (op.exact m n).toInt = (op.exact m.toInt n.toInt).bmod (2 ^ 32) := by
  cases op with
  | add => exact Int32.toInt_add m n
  | sub => exact Int32.toInt_sub m n
  | mul => exact Int32.toInt_mul m n

theorem toInt_exact_int64 (m n : Int64) :
    (op.exact m n).toInt = (op.exact m.toInt n.toInt).bmod (2 ^ 64) := by
  cases op with
  | add => exact Int64.toInt_add m n
  | sub => exact Int64.toInt_sub m n
  | mul => exact Int64.toInt_mul m n

/-- Decimals are computed exactly, at the exponent that the operation gives.  Only the exponent of a
product can be out of range. -/
theorem onDecimals_exact {a b : Decimal} (h : op = .mul → FitsInt32 (a.exponent + b.exponent)) :
    ∃ d, op.onDecimals a b = .ok (.decimal d) ∧ d.value = op.exact a.value b.value ∧
      d.exponent = op.exponent a.exponent b.exponent := by
  cases op with
  | add => exact ⟨a.add b, rfl, Decimal.value_add a b, rfl⟩
  | sub => exact ⟨a.sub b, rfl, Decimal.value_sub a b, rfl⟩
  | mul =>
    obtain ⟨p, hp, hvalue, hexponent⟩ := Decimal.mul_of_fits (h rfl)
    refine ⟨p, ?_, hvalue, hexponent⟩
    rw [onDecimals, Number.mulDecimal, hp]

theorem onDecimals_overflow {a b : Decimal} (h : ¬FitsInt32 (a.exponent + b.exponent)) :
    onDecimals .mul a b = .error (.exponentOverflow (a.exponent + b.exponent)) := by
  rw [onDecimals, Number.mulDecimal, Decimal.mul_of_not_fits h]

end RingOperation

/-- The number of bits of a kind of machine integers. -/
def Kind.width? : Kind → Option ℕ
  | .int32 => some 32
  | .int64 => some 64
  | _ => none

/-- What `r` is as the result of an operation on numbers of the values `x` and `y`. -/
structure RingOperation.Result (op : RingOperation) (a b r : Number) (x y : ℚ) : Prop where
  kind_eq : r.kind = a.kind.promote b.kind
  value_eq : r.kind = .bigint ∨ r.kind = .decimal → r.value? = some (op.exact x y)
  exponent_eq : ∀ d, r = .decimal d →
    d.exponent = op.exponent a.decimalExponent b.decimalExponent
  wraps : ∀ w, r.kind.width? = some w →
    ∀ m : ℤ, Wrapped w (op.exact x y) m ↔ r.value? = some (m : ℚ)

namespace RingOperation

/-- A product of decimals whose exponent is out of range. -/
def Overflows (op : RingOperation) (a b : Number) : Prop :=
  op = .mul ∧ a.kind.promote b.kind = .decimal ∧
    ¬FitsInt32 (a.decimalExponent + b.decimalExponent)

variable (op : RingOperation) {a b : Number} {x y : ℚ}

/-- A machine integer that holds the balanced residue of the exact result is the result. -/
theorem Result.of_word {r : Number} {w : ℕ} {i j : ℤ} (hkind : r.kind = a.kind.promote b.kind)
    (hwidth : r.kind.width? = some w) (hw : 0 < w)
    (hvalue : r.value? = some (((op.exact i j).bmod (2 ^ w) : ℤ) : ℚ)) :
    op.Result a b r i j where
  kind_eq := hkind
  value_eq := by
    intro hexact
    rcases hexact with hbigint | hdecimal
    · rw [hbigint] at hwidth
      cases hwidth
    · rw [hdecimal] at hwidth
      cases hwidth
  exponent_eq := by
    intro d hd
    subst hd
    cases hwidth
  wraps := by
    intro w' hw' m
    obtain rfl : w = w' := Option.some.inj (hwidth.symm.trans hw')
    rw [← cast_exact, wrapped_iff_bmod hw, hvalue, Option.some.injEq, Int.cast_inj]

theorem apply_int32 (h : a.kind.promote b.kind = .int32) (ha : a.value? = some x)
    (hb : b.value? = some y) : ∃ r, op.apply a b = .ok r ∧ op.Result a b r x y := by
  obtain ⟨m, n, halign, hm, hn⟩ := Number.align?_int32 h
  obtain rfl : (m.toInt : ℚ) = x := Option.some.inj (hm.symm.trans ha)
  obtain rfl : (n.toInt : ℚ) = y := Option.some.inj (hn.symm.trans hb)
  refine ⟨.int32 (op.exact m n), op.apply_of_align? halign, ?_⟩
  exact Result.of_word op h.symm rfl (by decide) (by rw [← toInt_exact_int32]; rfl)

theorem apply_int64 (h : a.kind.promote b.kind = .int64) (ha : a.value? = some x)
    (hb : b.value? = some y) : ∃ r, op.apply a b = .ok r ∧ op.Result a b r x y := by
  obtain ⟨m, n, halign, hm, hn⟩ := Number.align?_int64 h
  obtain rfl : (m.toInt : ℚ) = x := Option.some.inj (hm.symm.trans ha)
  obtain rfl : (n.toInt : ℚ) = y := Option.some.inj (hn.symm.trans hb)
  refine ⟨.int64 (op.exact m n), op.apply_of_align? halign, ?_⟩
  exact Result.of_word op h.symm rfl (by decide) (by rw [← toInt_exact_int64]; rfl)

theorem apply_float64 (h : a.kind.promote b.kind = .float64) :
    ∃ r, op.apply a b = .ok r ∧ op.Result a b r x y := by
  refine ⟨_, op.apply_of_align? (Number.align?_float64 h), h.symm, ?_, ?_, ?_⟩
  · intro hexact
    rcases hexact with hkind | hkind <;> cases hkind
  · intro d hd
    cases hd
  · intro w hw
    cases hw

theorem apply_bigint (h : a.kind.promote b.kind = .bigint) (ha : a.value? = some x)
    (hb : b.value? = some y) : ∃ r, op.apply a b = .ok r ∧ op.Result a b r x y := by
  obtain ⟨m, n, halign, hm, hn⟩ := Number.align?_bigint h
  obtain rfl : (m : ℚ) = x := Option.some.inj (hm.symm.trans ha)
  obtain rfl : (n : ℚ) = y := Option.some.inj (hn.symm.trans hb)
  refine ⟨.bigint (op.exact m n), op.apply_of_align? halign, h.symm, ?_, ?_, ?_⟩
  · intro _
    exact congrArg some (op.cast_exact m n)
  · intro d hd
    cases hd
  · intro w hw
    cases hw

theorem apply_decimal (h : a.kind.promote b.kind = .decimal) (ha : a.value? = some x)
    (hb : b.value? = some y) (hfits : ¬op.Overflows a b) :
    ∃ r, op.apply a b = .ok r ∧ op.Result a b r x y := by
  obtain ⟨d, e, halign, rfl, rfl, hd, he⟩ := Number.align?_decimal_of_value? h ha hb
  have hproduct : op = .mul → FitsInt32 (d.exponent + e.exponent) := by
    intro hmul
    by_contra hout
    rw [hd, he] at hout
    exact hfits ⟨hmul, h, hout⟩
  obtain ⟨p, hp, hvalue, hexponent⟩ := op.onDecimals_exact hproduct
  refine ⟨.decimal p, (op.apply_of_align? halign).trans hp, h.symm, ?_, ?_, ?_⟩
  · intro _
    exact congrArg some hvalue
  · intro p' hp'
    obtain rfl : p = p' := Number.decimal.inj hp'
    rw [hexponent, hd, he]
  · intro w hw
    cases hw

theorem apply_overflow (ha : a.value? = some x) (hb : b.value? = some y) (h : op.Overflows a b) :
    op.apply a b = .error (.exponentOverflow (a.decimalExponent + b.decimalExponent)) := by
  obtain ⟨rfl, hkind, hout⟩ := h
  obtain ⟨d, e, halign, _, _, hd, he⟩ := Number.align?_decimal_of_value? hkind ha hb
  rw [← hd, ← he] at hout ⊢
  exact (apply_of_align? _ halign).trans (onDecimals_overflow hout)

theorem apply_notFinite (h : a.kind.promote b.kind = .decimal)
    (hnone : a.value? = none ∨ b.value? = none) :
    op.apply a b = .error (.arithmetic op.symbol .notFinite) := by
  rw [apply_eq, Number.align?_eq_none h hnone]

/-- Sums, differences and products of finite numbers have the promoted kind.  They are exact in the
unbounded integers and the decimals and wrap in the machine integers; only the exponent of a product
of decimals can be out of range.  An infinity or not-a-number next to an unbounded integer or a
decimal is an error. -/
theorem apply_result (a b : Number) :
    (∀ x y, a.value? = some x → b.value? = some y →
      (op.Overflows a b ∧
          op.apply a b = .error (.exponentOverflow (a.decimalExponent + b.decimalExponent))) ∨
        (¬op.Overflows a b ∧ ∃ r, op.apply a b = .ok r ∧ op.Result a b r x y)) ∧
    ∀ (z : Binary64) (n : Number), z.isFinite = false → n.kind = .bigint ∨ n.kind = .decimal →
      op.apply (.float64 z) n = .error (.arithmetic op.symbol .notFinite) ∧
        op.apply n (.float64 z) = .error (.arithmetic op.symbol .notFinite) := by
  constructor
  · intro x y ha hb
    by_cases hover : op.Overflows a b
    · exact Or.inl ⟨hover, op.apply_overflow ha hb hover⟩
    · refine Or.inr ⟨hover, ?_⟩
      cases hkind : a.kind.promote b.kind with
      | int32 => exact op.apply_int32 hkind ha hb
      | int64 => exact op.apply_int64 hkind ha hb
      | float64 => exact op.apply_float64 hkind
      | bigint => exact op.apply_bigint hkind ha hb
      | decimal => exact op.apply_decimal hkind ha hb hover
  · intro z n hz hn
    have hnone : (Number.float64 z).value? = none := by
      rw [Binary64.isFinite_eq_isSome_value?, Option.isSome_eq_false_iff, Option.isNone_iff_eq_none]
        at hz
      exact hz
    have hleft : (Number.float64 z).kind.promote n.kind = .decimal := by
      rcases hn with hn | hn <;> rw [hn] <;> rfl
    constructor
    · exact op.apply_notFinite hleft (Or.inl hnone)
    · rw [Kind.promote_comm] at hleft
      exact op.apply_notFinite hleft (Or.inr hnone)

/-- One half and three meet in the decimals, where not-a-number has no place. -/
theorem apply_result_half_bigint :
    (∃ r, apply .sub (.float64 (.finite false Binary64.topBit (-53) (by decide))) (.bigint 3) =
        .ok r ∧
      Result .sub (.float64 (.finite false Binary64.topBit (-53) (by decide))) (.bigint 3) r
        (1 / 2) 3) ∧
      apply .sub (.bigint 3) (.float64 .nan) = .error (.arithmetic "-" .notFinite) := by
  have hhalf : (Number.float64 (.finite false Binary64.topBit (-53) (by decide))).value? =
      some (1 / 2) := by
    norm_num [Number.value?, Binary64.value?, Binary64.signed, Binary64.topBit]
  obtain ⟨hresult, herror⟩ := apply_result .sub
    (.float64 (.finite false Binary64.topBit (-53) (by decide))) (.bigint 3)
  constructor
  · rcases hresult (1 / 2) 3 hhalf rfl with ⟨hover, _⟩ | ⟨_, hresult⟩
    · cases hover.1
    · exact hresult
  · exact (herror .nan (.bigint 3) rfl (Or.inl rfl)).2

end RingOperation

end Reckoner
