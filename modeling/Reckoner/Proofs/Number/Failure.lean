import Reckoner.Datum.Basic
import Reckoner.Proofs.Number.Conversion
import Reckoner.Proofs.Number.Division

/-!
# How operations on numbers fail

Operations are applied to values of every sort, and announce two sorts of errors: an operand that is
no number, and a result that does not exist.  `operations_fail_as_announced` says that nothing else
happens, except for products and quotients of decimals whose combined exponent is out of range.

* Operands are checked before anything is computed, so an operation complains about an operand
  exactly if one of them is no number, and about the first one if it can.  What is accepted is
  computed as the number that it is read as, also if its internal value is absent.
* Numbers of different kinds are brought to their promoted kind.  `widen` goes from one kind to
  another and has a result for the steps upward only; `align_eq_widen` says that the alignment of
  two numbers takes such steps, and ends with two numbers of the promoted kind.
* In one kind, `Aligned` leaves only the decimals to look at: `settles_aligned`.
-/

namespace Reckoner

/-- The errors that operations announce: those of operands and of arithmetic. -/
def NumberError.isAnnounced : NumberError → Bool
  | .operand .. => true
  | .arithmetic .. => true
  | .exponentOverflow _ => false
  | .quotientOverflow => false

/-! ## Widening -/

namespace Number

/-- Bring a number to a wider kind.  There is no such step to a kind that is not wider. -/
def widen (operator : String) (n : Number) (k : Kind) : Option (Except NumberError Number) :=
  if n.kind = k then some (.ok n)
  else
    match k, n with
    | .int64, .int32 m => some (.ok (.int64 m.toInt64))
    | .float64, .int32 m => some (.ok (.float64 (Binary64.ofInteger m.toInt)))
    | .float64, .int64 m => some (.ok (.float64 (Binary64.ofInteger m.toInt)))
    | .bigint, .int32 m => some (.ok (.bigint m.toInt))
    | .bigint, .int64 m => some (.ok (.bigint m.toInt))
    | .decimal, n =>
      match n.decimal? with
      | some d => some (.ok (.decimal d))
      | none => some (.error (.arithmetic operator .notFinite))
    | _, _ => none

/-- Two numbers of one kind. -/
def pair? : Number → Number → Option Aligned
  | .int32 a, .int32 b => some (.int32 a b)
  | .int64 a, .int64 b => some (.int64 a b)
  | .float64 a, .float64 b => some (.float64 a b)
  | .bigint a, .bigint b => some (.bigint a b)
  | .decimal a, .decimal b => some (.decimal a b)
  | _, _ => none

theorem widen_decimal_of_some (operator : String) {n : Number} {d : Decimal}
    (h : n.decimal? = some d) : n.widen operator .decimal = some (.ok (.decimal d)) := by
  cases n with
  | decimal d' =>
    obtain rfl : d' = d := Option.some.inj h
    rfl
  | _ => simp [widen, kind, h]

theorem widen_decimal_of_none (operator : String) {n : Number} (h : n.decimal? = none) :
    n.widen operator .decimal = some (.error (.arithmetic operator .notFinite)) := by
  cases n with
  | decimal d => cases h
  | _ => simp [widen, kind, h]

/-- Conversion to a wider kind is widening. -/
theorem widen_eq_convert {n : Number} {k : Kind} (h : n.kind.promote k = k) :
    n.widen k.name k = some (n.convert k) := by
  by_cases hk : n.kind = k
  · subst hk
    rw [convert_kind]
    exact if_pos rfl
  · cases k with
    | int32 =>
      cases n <;> cases h
      exact absurd rfl hk
    | int64 =>
      cases n with
      | int32 m =>
        have hsame : (Number.int32 m).value? = (Number.int64 m.toInt64).value? := by
          rw [value?, value?, Int32.toInt_toInt64]
        have hconvert : (Number.int32 m).convert .int64 = .ok (.int64 m.toInt64) :=
          convert_of_value?_eq rfl hsame
        rw [hconvert]
        rfl
      | int64 m => exact absurd rfl hk
      | float64 | bigint | decimal => cases h
    | float64 => cases n <;> cases h <;> rfl
    | bigint => cases n <;> cases h <;> rfl
    | decimal =>
      cases hd : n.decimal? with
      | some d => rw [widen_decimal_of_some _ hd, convert, hd]
      | none => rw [widen_decimal_of_none _ hd, convert, hd]

/-- What the alignment of two numbers does: both are widened to the promoted kind, which is a step
upward for each, and the results make a pair. -/
structure Widens (operator : String) (a b : Number) (first second : Except NumberError Number) :
    Prop where
  first_eq : a.widen operator (a.kind.promote b.kind) = some first
  second_eq : b.widen operator (a.kind.promote b.kind) = some second
  kind_first : ∀ x, first = .ok x → x.kind = a.kind.promote b.kind
  kind_second : ∀ y, second = .ok y → y.kind = a.kind.promote b.kind
  align_eq : (do let x ← first; let y ← second; return pair? x y) = (align operator a b).map some

theorem widens_decimal (operator : String) {a b : Number} (h : a.kind.promote b.kind = .decimal) :
    ∃ first second, Widens operator a b first second := by
  have hwiden (n : Number) : ∃ r, n.widen operator .decimal = some r ∧
      (∀ x, r = .ok x → x.kind = .decimal) ∧
      ((∃ d, n.decimal? = some d ∧ r = .ok (.decimal d)) ∨
        n.decimal? = none ∧ r = .error (.arithmetic operator .notFinite)) := by
    cases hn : n.decimal? with
    | some d =>
      refine ⟨_, widen_decimal_of_some operator hn, ?_, Or.inl ⟨d, rfl, rfl⟩⟩
      rintro x ⟨⟩
      rfl
    | none => exact ⟨_, widen_decimal_of_none operator hn, by simp, Or.inr ⟨rfl, rfl⟩⟩
  obtain ⟨first, hfirst, hkindFirst, hcasesFirst⟩ := hwiden a
  obtain ⟨second, hsecond, hkindSecond, hcasesSecond⟩ := hwiden b
  refine ⟨first, second, h ▸ hfirst, h ▸ hsecond, h ▸ hkindFirst, h ▸ hkindSecond, ?_⟩
  rw [align, align?_decimal h]
  obtain ⟨d, hd, rfl⟩ | ⟨hd, rfl⟩ := hcasesFirst
  · obtain ⟨e, he, rfl⟩ | ⟨he, rfl⟩ := hcasesSecond <;> rw [hd, he] <;> rfl
  · rw [hd]
    rfl

/-- The alignment of two numbers is never stuck: it widens both of them. -/
theorem align_eq_widen (operator : String) (a b : Number) :
    ∃ first second, Widens operator a b first second := by
  -- only the decimals have numbers to refuse; the other kinds are computed case by case
  cases h : a.kind.promote b.kind with
  | decimal => exact widens_decimal operator h
  | int32 | int64 | float64 | bigint =>
    cases a <;> cases b <;> cases h
    all_goals
      refine ⟨_, _, rfl, rfl, ?_, ?_, rfl⟩
      all_goals
        rintro x ⟨⟩
        rfl

/-! ## Numbers that meet in the decimals -/

/-- Both numbers are finite, and the decimals are the kind in which they are computed. -/
def MeetAsDecimals (a b : Number) : Prop :=
  a.kind.promote b.kind = .decimal ∧ ∃ x y, a.value? = some x ∧ b.value? = some y

variable {a b : Number}

theorem meetAsDecimals_of_align? {d e : Decimal} (h : align? a b = some (.decimal d e)) :
    MeetAsDecimals a b ∧ d.exponent = a.decimalExponent ∧ e.exponent = b.decimalExponent ∧
      b.value? = some e.value := by
  have hkind : a.kind.promote b.kind = .decimal := by
    cases hk : a.kind.promote b.kind with
    | int32 =>
      obtain ⟨m, n, halign, _⟩ := align?_int32 hk
      cases halign.symm.trans h
    | int64 =>
      obtain ⟨m, n, halign, _⟩ := align?_int64 hk
      cases halign.symm.trans h
    | float64 => cases (align?_float64 hk).symm.trans h
    | bigint =>
      obtain ⟨m, n, halign, _⟩ := align?_bigint hk
      cases halign.symm.trans h
    | decimal => rfl
  by_cases hnone : a.value? = none ∨ b.value? = none
  · cases (align?_eq_none hkind hnone).symm.trans h
  · rw [not_or, ← Ne, ← Ne, Option.ne_none_iff_exists', Option.ne_none_iff_exists'] at hnone
    obtain ⟨⟨x, hx⟩, y, hy⟩ := hnone
    obtain ⟨d', e', halign, _, rfl, hd, he⟩ := align?_decimal_of_value? hkind hx hy
    cases halign.symm.trans h
    exact ⟨⟨hkind, x, _, hx, hy⟩, hd, he, hy⟩

theorem MeetAsDecimals.align? (h : MeetAsDecimals a b) :
    ∃ d e, align? a b = some (.decimal d e) := by
  obtain ⟨hkind, x, y, hx, hy⟩ := h
  obtain ⟨d, e, halign, _⟩ := align?_decimal_of_value? hkind hx hy
  exact ⟨d, e, halign⟩

end Number

/-! ## Outcomes -/

/-- A result, an arithmetic error, or exactly under the given condition an error that is not
announced. -/
inductive Settles {α : Type} (overflows : Prop) : Except NumberError α → Prop
  | result (v : α) (h : ¬overflows) : Settles overflows (.ok v)
  | undefined (operator : String) (cause : ArithmeticCause) (h : ¬overflows) :
    Settles overflows (.error (.arithmetic operator cause))
  | overflow (e : NumberError) (he : e.isAnnounced = false) (h : overflows) :
    Settles overflows (.error e)

namespace Settles

variable {α β : Type} {P Q : Prop} {r : Except NumberError α}

theorem congr (h : Settles P r) (hiff : P ↔ Q) : Settles Q r := by
  rwa [← propext hiff]

theorem map (h : Settles P r) (f : α → β) : Settles P (f <$> r) := by
  cases h with
  | result v h => exact .result (f v) h
  | undefined operator cause h => exact .undefined operator cause h
  | overflow e he h => exact .overflow e he h

theorem not_operand (h : Settles P r) (operator : String) (position : Int) (actual : String) :
    r ≠ .error (.operand operator position actual) := by
  rintro rfl
  cases h with
  | overflow e he => cases he

theorem unannounced_iff (h : Settles P r) : (∃ e, r = .error e ∧ e.isAnnounced = false) ↔ P := by
  cases h with
  | result v h => simp [h]
  | undefined operator cause h => simp [h, NumberError.isAnnounced]
  | overflow e he h => simp [he, h]

end Settles

open Number in
/-- An operation that is computed in the common kind of its operands can only overflow in the
decimals. -/
theorem settles_aligned {α : Type} (operator : String) (a b : Number)
    {f : Aligned → Except NumberError α} (overflows : Decimal → Decimal → Prop)
    (hf : ∀ aligned, (∀ d e, aligned ≠ .decimal d e) → Settles False (f aligned))
    (hdecimal : ∀ d e, Settles (overflows d e) (f (.decimal d e))) :
    Settles (∃ d e, align? a b = some (.decimal d e) ∧ overflows d e)
      (align operator a b >>= f) := by
  rw [align]
  cases h : align? a b with
  | none => exact .undefined operator .notFinite (by simp)
  | some aligned =>
    cases aligned with
    | decimal d e =>
      refine (hdecimal d e).congr ⟨fun hover => ⟨d, e, rfl, hover⟩, ?_⟩
      rintro ⟨d', e', hsame, hover⟩
      cases hsame
      exact hover
    | int32 | int64 | float64 | bigint => exact (hf _ (by simp)).congr (by simp)

/-! ## Operations -/

/-- The operations on two operands. -/
inductive BinaryOperation where
  | add
  | sub
  | mul
  | div
  | equal
  | less
  | lessEqual

namespace BinaryOperation

/-- The operation on two operands: a number, or an answer. -/
def apply (op : BinaryOperation) (a b : Operand) : Except NumberError (Number ⊕ Bool) :=
  match op with
  | .add => .inl <$> Operand.add a b
  | .sub => .inl <$> Operand.sub a b
  | .mul => .inl <$> Operand.mul a b
  | .div => .inl <$> Operand.div a b
  | .equal => .inr <$> Operand.equal a b
  | .less => .inr <$> Operand.less a b
  | .lessEqual => .inr <$> Operand.lessEqual a b

/-- A product or a quotient of decimals whose combined exponent is out of range. -/
def Overflows (a b : Number) : BinaryOperation → Prop
  | .mul => a.MeetAsDecimals b ∧ ¬FitsInt32 (a.decimalExponent + b.decimalExponent)
  | .div =>
    a.MeetAsDecimals b ∧ b.value? ≠ some 0 ∧ ¬FitsInt32 (a.decimalExponent - b.decimalExponent + 16)
  | _ => False

/-- Operands are checked first, in their order. -/
theorem apply_operands (op : BinaryOperation) (a b : Operand) :
    (∃ m n, a.number? = some m ∧ b.number? = some n ∧
        op.apply a b = op.apply (.number m) (.number n)) ∨
      ∃ operator position actual, op.apply a b = .error (.operand operator position actual) ∧
        ((position = 1 ∧ a.number? = none) ∨
          (position = 2 ∧ a.number? ≠ none ∧ b.number? = none)) := by
  unfold Operand.number?
  cases ha : a.accept with
  | error actual =>
    refine Or.inr ?_
    cases op <;> exact ⟨_, 1, actual,
      congrArg (Functor.map _) (Operand.binary_of_first_refused _ _ ha), Or.inl ⟨rfl, rfl⟩⟩
  | ok m =>
    cases hb : b.accept with
    | error actual =>
      refine Or.inr ?_
      cases op <;> exact ⟨_, 2, actual,
        congrArg (Functor.map _) (Operand.binary_of_second_refused _ _ ha hb),
        Or.inr ⟨rfl, Option.some_ne_none m, rfl⟩⟩
    | ok n =>
      refine Or.inl ⟨m, n, rfl, rfl, ?_⟩
      cases op <;> exact congrArg (Functor.map _) (Operand.binary_of_accept _ _ ha hb)

end BinaryOperation

theorem RingOperation.settles (op : RingOperation) (a b : Number) :
    Settles (op = .mul ∧ a.MeetAsDecimals b ∧ ¬FitsInt32 (a.decimalExponent + b.decimalExponent))
      (op.apply a b) := by
  have hbind : op.apply a b = Number.align op.symbol a b >>= op.onAligned := by
    rw [apply_eq, Number.align]
    cases Number.align? a b <;> rfl
  rw [hbind]
  refine (settles_aligned op.symbol a b
    (fun d e => op = .mul ∧ ¬FitsInt32 (d.exponent + e.exponent)) ?_ ?_).congr ?_
  · intro aligned hexact
    cases aligned with
    | decimal d e => exact absurd rfl (hexact d e)
    | int32 | int64 | float64 | bigint => exact .result _ not_false
  · intro d e
    by_cases hover : op = .mul ∧ ¬FitsInt32 (d.exponent + e.exponent)
    · obtain ⟨rfl, hout⟩ := id hover
      have herror : onAligned .mul (.decimal d e) = _ := onDecimals_overflow hout
      rw [herror]
      exact .overflow _ rfl hover
    · obtain ⟨p, hp, _⟩ := op.onDecimals_exact fun hmul =>
        not_not.1 fun hout => hover ⟨hmul, hout⟩
      have hok : op.onAligned (.decimal d e) = .ok (.decimal p) := hp
      rw [hok]
      exact .result _ hover
  · constructor
    · rintro ⟨d, e, halign, hmul, hout⟩
      obtain ⟨hmeet, hd, he, _⟩ := Number.meetAsDecimals_of_align? halign
      exact ⟨hmul, hmeet, hd ▸ he ▸ hout⟩
    · rintro ⟨hmul, hmeet, hout⟩
      obtain ⟨d, e, halign⟩ := hmeet.align?
      obtain ⟨_, hd, he, _⟩ := Number.meetAsDecimals_of_align? halign
      exact ⟨d, e, halign, hmul, hd ▸ he ▸ hout⟩

theorem Number.settles_divDecimal (d e : Decimal) :
    Settles (e.value ≠ 0 ∧ ¬FitsInt32 (d.exponent - e.exponent + 16)) (divDecimal d e) := by
  simp only [divDecimal, ← Decimal.value_eq_zero_iff]
  by_cases hzero : e.value = 0
  · rw [if_pos hzero]
    split_ifs <;> exact .undefined _ _ (by simp [hzero])
  · rw [if_neg hzero]
    by_cases hfits : FitsInt32 (d.exponent - e.exponent + 16)
    · obtain ⟨q, hq, _⟩ := Decimal.quotient_nearestAway hzero hfits
      rw [hq]
      exact .result _ (by simp [hfits])
    · have hnone : d.quotient e = none := if_neg hfits
      rw [hnone]
      exact .overflow _ rfl ⟨hzero, hfits⟩

theorem Number.settles_div (a b : Number) :
    Settles (BinaryOperation.div.Overflows a b) (Operand.div (.number a) (.number b)) := by
  have hbind : Operand.div (.number a) (.number b) = align "/" a b >>= Aligned.quotient := by
    rw [div_eq, align]
    cases align? a b <;> rfl
  rw [hbind]
  refine (settles_aligned "/" a b _ ?_ settles_divDecimal).congr ?_
  · intro aligned hexact
    cases aligned with
    | decimal d e => exact absurd rfl (hexact d e)
    | float64 => exact .result _ not_false
    | int32 | int64 | bigint =>
      rw [Aligned.quotient]
      split_ifs
      · exact .undefined _ _ not_false
      · exact .result _ not_false
  · constructor
    · rintro ⟨d, e, halign, hzero, hout⟩
      obtain ⟨hmeet, hd, he, hvalue⟩ := meetAsDecimals_of_align? halign
      refine ⟨hmeet, ?_, hd ▸ he ▸ hout⟩
      rw [hvalue, Ne, Option.some.injEq]
      exact hzero
    · rintro ⟨hmeet, hzero, hout⟩
      obtain ⟨d, e, halign⟩ := hmeet.align?
      obtain ⟨_, hd, he, hvalue⟩ := meetAsDecimals_of_align? halign
      rw [hvalue, Ne, Option.some.injEq] at hzero
      exact ⟨d, e, halign, hzero, hd ▸ he ▸ hout⟩

theorem BinaryOperation.settles (op : BinaryOperation) (a b : Number) :
    Settles (op.Overflows a b) (op.apply (.number a) (.number b)) := by
  cases op with
  | add => exact ((RingOperation.add.settles a b).map _).congr (by simp [Overflows])
  | sub => exact ((RingOperation.sub.settles a b).map _).congr (by simp [Overflows])
  | mul => exact ((RingOperation.mul.settles a b).map _).congr (by simp [Overflows])
  | div => exact (Number.settles_div a b).map _
  | equal | less | lessEqual => exact .result _ not_false

/-- The operations on one operand. -/
inductive UnaryOperation where
  | square
  | sqrt
  | neg
  | convert (k : Kind)

namespace UnaryOperation

/-- The operation on an operand. -/
def apply (op : UnaryOperation) (a : Operand) : Except NumberError Number :=
  match op with
  | .square => a.square
  | .sqrt => a.sqrt
  | .neg => a.neg
  | .convert k => a.convert k

/-- The square of a decimal whose doubled exponent is out of range. -/
def Overflows (a : Number) : UnaryOperation → Prop
  | .square => BinaryOperation.mul.Overflows a a
  | _ => False

theorem apply_operand (op : UnaryOperation) (a : Operand) :
    (∃ m, a.number? = some m ∧ op.apply a = op.apply (.number m)) ∨
      a.number? = none ∧ ∃ operator actual, op.apply a = .error (.operand operator 0 actual) := by
  unfold Operand.number?
  cases ha : a.accept with
  | ok m =>
    refine Or.inl ⟨m, rfl, ?_⟩
    cases op <;> exact Operand.unary_of_accept _ _ ha
  | error actual =>
    refine Or.inr ⟨rfl, ?_⟩
    cases op <;> exact ⟨_, actual, Operand.unary_of_refused _ _ ha⟩

theorem settles_sqrtDecimal (root : Binary64) : Settles False (Number.sqrtDecimal root) := by
  rw [Number.sqrtDecimal]
  cases Decimal.ofShortest root with
  | some d => exact .result _ not_false
  | none => exact .undefined _ _ not_false

theorem settles_convert (n : Number) (k : Kind) : Settles False (n.convert k) := by
  by_cases hk : k = .float64
  · subst hk
    exact .result _ not_false
  · by_cases h : ∃ q, n.value? = some q ∧ k.Admits q
    · obtain ⟨q, hq, hadmits⟩ := h
      obtain ⟨r, hr, _⟩ := Number.convert_of_admits hk hq hadmits
      rw [hr]
      exact .result _ not_false
    · obtain ⟨cause, hcause⟩ := Number.convert_of_not_admits hk h
      rw [hcause]
      exact .undefined _ _ not_false

theorem settles (op : UnaryOperation) (a : Number) :
    Settles (op.Overflows a) (op.apply (.number a)) := by
  cases op with
  | square =>
    exact (RingOperation.mul.settles a a).congr (by simp [Overflows, BinaryOperation.Overflows])
  | sqrt =>
    cases a with
    | bigint | decimal => exact settles_sqrtDecimal _
    | int32 | int64 | float64 => exact .result _ not_false
  | neg => exact .result _ not_false
  | convert k => exact settles_convert a k

end UnaryOperation

/-! ## Failures -/

/-- Every operation on any operands gives a result, complains about an operand, or is an arithmetic
error; only the product, the square and the quotient of decimals whose combined exponent is out of
range do something else.  Operands are numbers, wide numbers with or without an internal value,
references with or without a target, and all other values.  An operation complains about an operand
exactly if one of them is no number, and about the first one exactly if that is none; a value is the
number that it is as an operand.  Numbers of different kinds are always widened to numbers of their
promoted kind, and conversion to a wider kind is widening too. -/
theorem operations_fail_as_announced :
    (∀ (op : BinaryOperation) (a b : Operand),
      ((∃ operator position actual, op.apply a b = .error (.operand operator position actual)) ↔
        a.number? = none ∨ b.number? = none) ∧
      (∀ operator position actual, op.apply a b = .error (.operand operator position actual) →
        (position = 1 ∨ position = 2) ∧ (position = 1 ↔ a.number? = none)) ∧
      ((∃ e, op.apply a b = .error e ∧ e.isAnnounced = false) ↔
        ∃ m n, a.number? = some m ∧ b.number? = some n ∧ op.Overflows m n)) ∧
    (∀ (op : UnaryOperation) (a : Operand),
      ((∃ operator position actual, op.apply a = .error (.operand operator position actual)) ↔
        a.number? = none) ∧
      ((∃ e, op.apply a = .error e ∧ e.isAnnounced = false) ↔
        ∃ m, a.number? = some m ∧ op.Overflows m)) ∧
    (∀ x : Datum, x.operand.number? = x.number?) ∧
    (∀ (operator : String) (a b : Number),
      ∃ first second, Number.Widens operator a b first second) ∧
    ∀ (n : Number) (k : Kind), n.kind.promote k = k → n.widen k.name k = some (n.convert k) := by
  refine ⟨?_, ?_, Datum.number?_operand, Number.align_eq_widen,
    fun n k => Number.widen_eq_convert⟩
  · intro op a b
    obtain ⟨m, n, ha, hb, happly⟩ | ⟨operator, position, actual, happly, hposition⟩ :=
      op.apply_operands a b
    · have hsettles := op.settles m n
      rw [happly]
      refine ⟨?_, ?_, ?_⟩
      · exact iff_of_false (fun ⟨_, _, _, h⟩ => hsettles.not_operand _ _ _ h) (by simp [ha, hb])
      · intro operator position actual h
        exact absurd h (hsettles.not_operand _ _ _)
      · rw [hsettles.unannounced_iff]
        simp [ha, hb]
    · rw [happly]
      obtain ⟨rfl, ha⟩ | ⟨rfl, ha, hb⟩ := hposition
      · simp [ha, NumberError.isAnnounced]
      · simp [ha, hb, NumberError.isAnnounced]
  · intro op a
    obtain ⟨m, ha, happly⟩ | ⟨ha, operator, actual, happly⟩ := op.apply_operand a
    · have hsettles := op.settles m
      rw [happly]
      refine ⟨?_, ?_⟩
      · exact iff_of_false (fun ⟨_, _, _, h⟩ => hsettles.not_operand _ _ _ h) (by simp [ha])
      · rw [hsettles.unannounced_iff]
        simp [ha]
    · rw [happly]
      simp [ha, NumberError.isAnnounced]

/-- An empty reference is no number, a quotient by an integer without an internal value does not
complain about an operand, and the square of the finest decimal overflows. -/
theorem operations_fail_as_announced_overflow :
    (∃ position : Int, BinaryOperation.less.apply (.reference "*numeric.BigInt" none)
        (.number (.int32 1)) = .error (.operand "<" position "*numeric.BigInt") ∧
          position = 1) ∧
      (¬∃ operator position actual, BinaryOperation.div.apply (.number (.int32 1))
        (.wide (.bigint none)) = .error (.operand operator position actual)) ∧
      (∃ e, UnaryOperation.square.apply (.number (.decimal ⟨1, -2147483648, by decide⟩)) =
        .error e ∧ e.isAnnounced = false) ∧
      (Number.int32 7).widen "int64" .int64 = some ((Number.int32 7).convert .int64) := by
  obtain ⟨hbinary, hunary, _, _, hconvert⟩ := operations_fail_as_announced
  refine ⟨⟨1, rfl, ?_⟩, ?_, ?_, hconvert (.int32 7) .int64 rfl⟩
  · exact ((hbinary .less (.reference "*numeric.BigInt" none) (.number (.int32 1))).2.1 _ _ _
      rfl).2.2 rfl
  · rw [(hbinary .div (.number (.int32 1)) (.wide (.bigint none))).1]
    rintro (h | h) <;> cases h
  · refine (hunary .square (.number (.decimal ⟨1, -2147483648, by decide⟩))).2.2 ⟨_, rfl, ?_⟩
    exact ⟨⟨rfl, _, _, rfl, rfl⟩, by decide⟩

end Reckoner
