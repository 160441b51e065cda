import Reckoner.Proofs.Decimal.Quotient
import Reckoner.Proofs.Number.Arithmetic

/-!
# Quotients across kinds

Outside the doubles a quotient either fails or is determined by the values of its operands.

* Machine integers drop the fraction and wrap; only the least integer over `-1` does.
* Unbounded integers drop the fraction.
* Decimals round to sixteen places, a half going away from zero.

It fails when the divisor is zero, and when an infinity or not-a-number would have to be a decimal.
`QuotientFits` is the bound on the exponents of decimals under which nothing else can fail.
-/

namespace Reckoner

/-- The quotient of two numbers of one kind. -/
def Aligned.quotient : Aligned → Except NumberError Number
  | .int32 a b =>
    if b = 0 then .error (.arithmetic "/" .wordDivisionByZero) else .ok (.int32 (a / b))
  | .int64 a b =>
    if b = 0 then .error (.arithmetic "/" .wordDivisionByZero) else .ok (.int64 (a / b))
  | .float64 a b => .ok (.float64 (a.div b))
  | .bigint a b =>
    if b = 0 then .error (.arithmetic "/" .bigintDivisionByZero) else .ok (.bigint (a.tdiv b))
  | .decimal a b => Number.divDecimal a b

namespace Number

theorem div_eq (a b : Number) :
    Operand.div (.number a) (.number b) =
      match align? a b with
      | some aligned => aligned.quotient
      | none => .error (.arithmetic "/" .notFinite) := by
  simp only [Operand.div, Operand.binary_number, Number.div, align]
  cases align? a b with
  | none => rfl
  | some aligned => cases aligned <;> rfl

theorem div_of_align? {a b : Number} {aligned : Aligned} (h : align? a b = some aligned) :
    Operand.div (.number a) (.number b) = aligned.quotient := by
  rw [div_eq, h]

/-- The exponents of two decimals are close enough to divide. -/
def QuotientFits (a b : Number) : Prop :=
  a.kind.promote b.kind = .decimal → ∀ x y, a.value? = some x → b.value? = some y →
    FitsInt32 (a.decimalExponent - b.decimalExponent + 16)

/-- What `r` is as the quotient of numbers of the values `x` and `y`. -/
structure IsQuotient (a b r : Number) (x y : ℚ) : Prop where
  kind_eq : r.kind = a.kind.promote b.kind
  wraps : ∀ w, r.kind.width? = some w →
    (∀ m : ℤ, Wrapped w (truncated (x / y)) m ↔ r.value? = some (m : ℚ)) ∧
      (r.value? ≠ some (truncated (x / y) : ℚ) ↔ x = -2 ^ (w - 1) ∧ y = -1)
  remainder : ∀ q, r = .bigint q →
    ∃ i j t : ℤ, x = i ∧ y = j ∧ i = q * j + t ∧ |t| < |j| ∧ (t = 0 ∨ t.sign = i.sign)
  rounded : ∀ d, r = .decimal d →
    d.exponent = -16 ∧ ∀ n : ℤ, NearestAway (x / y * 10 ^ 16) n ↔ n = d.coefficient

/-- What the division of numbers of the values `x` and `y` gives. -/
def DivisionOutcome (a b : Number) (x y : ℚ) : Prop :=
  if y = 0 then
    ∃ cause, Operand.div (.number a) (.number b) = .error (.arithmetic "/" cause) ∧
      (a.kind.promote b.kind = .decimal →
        cause.message = if x = 0 then "Division undefined" else "Division by zero")
  else ∃ r, Operand.div (.number a) (.number b) = .ok r ∧ IsQuotient a b r x y

section Kinds

variable {a b : Number} {x y : ℚ}

/-- A machine integer that holds the balanced residue of the truncated quotient is the quotient. -/
theorem IsQuotient.of_word {r : Number} {w : ℕ} {i j : ℤ} (hkind : r.kind = a.kind.promote b.kind)
    (hwidth : r.kind.width? = some w) (hw : 0 < w) (hj : j ≠ 0) (hlow : -2 ^ (w - 1) ≤ i)
    (hhigh : i < 2 ^ (w - 1))
    (hvalue : r.value? = some (((i.tdiv j).bmod (2 ^ w) : ℤ) : ℚ)) :
    IsQuotient a b r i j where
  kind_eq := hkind
  wraps := by
    intro w' hw'
    obtain rfl : w = w' := Option.some.inj (hwidth.symm.trans hw')
    rw [truncated_div i hj, hvalue]
    constructor
    · intro m
      rw [wrapped_iff_bmod hw, Option.some.injEq, Int.cast_inj]
    · rw [Ne, Option.some.injEq, Int.cast_inj]
      have hwrap := bmod_tdiv_ne_iff hw hlow hhigh hj
      rw [Ne] at hwrap
      rw [hwrap]
      constructor
      · intro hleast
        rw [hleast.1, hleast.2]
        norm_num
      · intro hleast
        exact ⟨by exact_mod_cast hleast.1, by exact_mod_cast hleast.2⟩
  remainder := by
    intro q hq
    subst hq
    cases hwidth
  rounded := by
    intro d hd
    subst hd
    cases hwidth

theorem DivisionOutcome.of_error {cause : ArithmeticCause} (hy : y = 0)
    (hdiv : Operand.div (.number a) (.number b) = .error (.arithmetic "/" cause))
    (hmessage : a.kind.promote b.kind = .decimal →
      cause.message = if x = 0 then "Division undefined" else "Division by zero") :
    DivisionOutcome a b x y := by
  rw [DivisionOutcome, if_pos hy]
  exact ⟨cause, hdiv, hmessage⟩

theorem DivisionOutcome.of_ok {r : Number} (hy : y ≠ 0)
    (hdiv : Operand.div (.number a) (.number b) = .ok r) (hr : IsQuotient a b r x y) :
    DivisionOutcome a b x y := by
  rw [DivisionOutcome, if_neg hy]
  exact ⟨r, hdiv, hr⟩

/-- Machine integers of both widths are divided alike. -/
theorem DivisionOutcome.of_word {r : Number} {w : ℕ} {i j : ℤ}
    (hdiv : Operand.div (.number a) (.number b) =
      if j = 0 then .error (.arithmetic "/" .wordDivisionByZero) else .ok r)
    (hkind : r.kind = a.kind.promote b.kind) (hwidth : r.kind.width? = some w) (hw : 0 < w)
    (hlow : -2 ^ (w - 1) ≤ i) (hhigh : i < 2 ^ (w - 1))
    (hvalue : r.value? = some (((i.tdiv j).bmod (2 ^ w) : ℤ) : ℚ)) :
    DivisionOutcome a b i j := by
  by_cases hj : j = 0
  · rw [if_pos hj] at hdiv
    refine .of_error (by rw [hj, Int.cast_zero]) hdiv ?_
    intro hdecimal
    rw [hkind, hdecimal] at hwidth
    cases hwidth
  · rw [if_neg hj] at hdiv
    refine .of_ok (by exact_mod_cast hj) hdiv ?_
    exact IsQuotient.of_word hkind hwidth hw hj hlow hhigh hvalue

theorem div_int32 (h : a.kind.promote b.kind = .int32) (ha : a.value? = some x)
    (hb : b.value? = some y) : DivisionOutcome a b x y := by
  obtain ⟨m, n, halign, hm, hn⟩ := align?_int32 h
  obtain rfl : (m.toInt : ℚ) = x := Option.some.inj (hm.symm.trans ha)
  obtain rfl : (n.toInt : ℚ) = y := Option.some.inj (hn.symm.trans hb)
  have hzero : n = 0 ↔ n.toInt = 0 := by rw [← Int32.toInt_zero, Int32.toInt_inj]
  have hdiv := div_of_align? halign
  simp only [Aligned.quotient, hzero] at hdiv
  exact .of_word hdiv h.symm rfl (by decide) m.le_toInt m.toInt_lt
    (by rw [← Int32.toInt_div]; rfl)

theorem div_int64 (h : a.kind.promote b.kind = .int64) (ha : a.value? = some x)
    (hb : b.value? = some y) : DivisionOutcome a b x y := by
  obtain ⟨m, n, halign, hm, hn⟩ := align?_int64 h
  obtain rfl : (m.toInt : ℚ) = x := Option.some.inj (hm.symm.trans ha)
  obtain rfl : (n.toInt : ℚ) = y := Option.some.inj (hn.symm.trans hb)
  have hzero : n = 0 ↔ n.toInt = 0 := by rw [← Int64.toInt_zero, Int64.toInt_inj]
  have hdiv := div_of_align? halign
  simp only [Aligned.quotient, hzero] at hdiv
  exact .of_word hdiv h.symm rfl (by decide) m.le_toInt m.toInt_lt
    (by rw [← Int64.toInt_div]; rfl)

theorem isQuotient_bigint (h : a.kind.promote b.kind = .bigint) (m : ℤ) {n : ℤ} (hn : n ≠ 0) :
    IsQuotient a b (.bigint (m.tdiv n)) m n where
  kind_eq := h.symm
  wraps := by
    intro w hw
    cases hw
  remainder := by
    intro q hq
    obtain rfl : m.tdiv n = q := Number.bigint.inj hq
    exact ⟨m, n, m.tmod n, rfl, rfl, tdiv_remainder m hn⟩
  rounded := by
    intro d hd
    cases hd

theorem div_bigint (h : a.kind.promote b.kind = .bigint) (ha : a.value? = some x)
    (hb : b.value? = some y) : DivisionOutcome a b x y := by
  obtain ⟨m, n, halign, hm, hn⟩ := align?_bigint h
  obtain rfl : (m : ℚ) = x := Option.some.inj (hm.symm.trans ha)
  obtain rfl : (n : ℚ) = y := Option.some.inj (hn.symm.trans hb)
  have hdiv := div_of_align? halign
  simp only [Aligned.quotient] at hdiv
  by_cases hzero : n = 0
  · rw [if_pos hzero] at hdiv
    refine .of_error (by rw [hzero, Int.cast_zero]) hdiv ?_
    intro hdecimal
    rw [h] at hdecimal
    cases hdecimal
  · rw [if_neg hzero] at hdiv
    exact .of_ok (by exact_mod_cast hzero) hdiv (isQuotient_bigint h m hzero)

theorem isQuotient_decimal (h : a.kind.promote b.kind = .decimal) {d : Decimal}
    (hexponent : d.exponent = -16) (hnearest : NearestAway (x / y * 10 ^ 16) d.coefficient) :
    IsQuotient a b (.decimal d) x y where
  kind_eq := h.symm
  wraps := by
    intro w hw
    cases hw
  remainder := by
    intro q hq
    cases hq
  rounded := by
    intro d' hd'
    obtain rfl : d = d' := Number.decimal.inj hd'
    refine ⟨hexponent, fun n => ⟨fun hn => hn.unique hnearest, ?_⟩⟩
    intro hn
    rw [hn]
    exact hnearest

theorem div_decimal (h : a.kind.promote b.kind = .decimal) (ha : a.value? = some x)
    (hb : b.value? = some y) (hfits : QuotientFits a b) : DivisionOutcome a b x y := by
  have hscale := hfits h x y ha hb
  obtain ⟨d, e, halign, rfl, rfl, hd, he⟩ := align?_decimal_of_value? h ha hb
  rw [← hd, ← he] at hscale
  have hdiv := div_of_align? halign
  simp only [Aligned.quotient, divDecimal, ← Decimal.value_eq_zero_iff] at hdiv
  by_cases hzero : e.value = 0
  · rw [if_pos hzero] at hdiv
    by_cases hboth : d.value = 0
    · rw [if_pos hboth] at hdiv
      exact .of_error hzero hdiv fun _ => (if_pos hboth).symm
    · rw [if_neg hboth] at hdiv
      exact .of_error hzero hdiv fun _ => (if_neg hboth).symm
  · obtain ⟨q, hq, hexponent, hnearest⟩ := Decimal.quotient_nearestAway hzero hscale
    rw [if_neg hzero, hq] at hdiv
    exact .of_ok hzero hdiv (isQuotient_decimal h hexponent hnearest)

theorem div_outcome (hkind : a.kind.promote b.kind ≠ .float64) (hfits : QuotientFits a b)
    (ha : a.value? = some x) (hb : b.value? = some y) : DivisionOutcome a b x y := by
  cases h : a.kind.promote b.kind with
  | int32 => exact div_int32 h ha hb
  | int64 => exact div_int64 h ha hb
  | float64 => exact absurd h hkind
  | bigint => exact div_bigint h ha hb
  | decimal => exact div_decimal h ha hb hfits

/-- Only a double has no value, and then the common kind is the doubles or the decimals. -/
theorem promote_of_value?_eq_none (h : a.value? = none ∨ b.value? = none) :
    a.kind.promote b.kind = .float64 ∨ a.kind.promote b.kind = .decimal := by
  have hfloat : ∀ {c : Number}, c.value? = none → c.kind = .float64 := by
    intro c hc
    cases c with
    | float64 x => rfl
    | _ => cases hc
  rcases h with ha | hb
  · rw [hfloat ha]
    cases b.kind <;> simp [Kind.promote]
  · rw [hfloat hb]
    cases a.kind <;> simp [Kind.promote]

end Kinds

/-- Outside the doubles, and with exponents of decimals that are close enough, division fails
exactly for a zero divisor and for an infinity or not-a-number among decimals; otherwise the
quotient is determined by the values. -/
theorem division_result (a b : Number) (hkind : a.kind.promote b.kind ≠ .float64)
    (hfits : QuotientFits a b) :
    ((∃ e, Operand.div (.number a) (.number b) = .error e) ↔
      a.kind.promote b.kind = .decimal ∧ (a.value? = none ∨ b.value? = none) ∨
        b.value? = some 0) ∧
    (a.kind.promote b.kind = .decimal → ∀ x, a.value? = some x → b.value? = some 0 →
      ∃ cause, Operand.div (.number a) (.number b) = .error (.arithmetic "/" cause) ∧
        cause.message = if x = 0 then "Division undefined" else "Division by zero") ∧
    ∀ x y, a.value? = some x → b.value? = some y → y ≠ 0 →
      ∃ r, Operand.div (.number a) (.number b) = .ok r ∧ IsQuotient a b r x y := by
  refine ⟨?_, ?_, ?_⟩
  · by_cases hnone : a.value? = none ∨ b.value? = none
    · have hdecimal := (promote_of_value?_eq_none hnone).resolve_left hkind
      have herror : Operand.div (.number a) (.number b) = .error (.arithmetic "/" .notFinite) := by
        rw [div_eq, align?_eq_none hdecimal hnone]
      exact ⟨fun _ => Or.inl ⟨hdecimal, hnone⟩, fun _ => ⟨_, herror⟩⟩
    · rw [not_or, ← Ne, ← Ne, Option.ne_none_iff_exists', Option.ne_none_iff_exists'] at hnone
      obtain ⟨⟨x, hx⟩, y, hy⟩ := hnone
      have houtcome := div_outcome hkind hfits hx hy
      by_cases hzero : y = 0
      · rw [DivisionOutcome, if_pos hzero] at houtcome
        obtain ⟨cause, hdiv, _⟩ := houtcome
        exact ⟨fun _ => Or.inr (hzero ▸ hy), fun _ => ⟨_, hdiv⟩⟩
      · rw [DivisionOutcome, if_neg hzero] at houtcome
        obtain ⟨r, hdiv, _⟩ := houtcome
        simp [hdiv, hx, hy, hzero]
  · intro hdecimal x hx hy
    have houtcome := div_outcome hkind hfits hx hy
    rw [DivisionOutcome, if_pos rfl] at houtcome
    obtain ⟨cause, hdiv, hmessage⟩ := houtcome
    exact ⟨cause, hdiv, hmessage hdecimal⟩
  · intro x y hx hy hne
    have houtcome := div_outcome hkind hfits hx hy
    rwa [DivisionOutcome, if_neg hne] at houtcome

/-- Half a unit of the last place over one, where the dividend is finer than the quotient. -/
theorem division_result_half_unit :
    QuotientFits (.decimal ⟨-5, -17, by decide⟩) (.bigint 1) ∧
      ∃ r, Operand.div (.number (.decimal ⟨-5, -17, by decide⟩)) (.number (.bigint 1)) = .ok r ∧
        IsQuotient (.decimal ⟨-5, -17, by decide⟩) (.bigint 1) r (-5 * 10 ^ (-17 : ℤ)) 1 := by
  have hfits : QuotientFits (.decimal ⟨-5, -17, by decide⟩) (.bigint 1) := by
    intro _ x y _ _
    decide
  refine ⟨hfits, ?_⟩
  obtain ⟨_, _, hquotient⟩ :=
    division_result (.decimal ⟨-5, -17, by decide⟩) (.bigint 1) (by decide) hfits
  refine hquotient _ _ ?_ ?_ one_ne_zero
  · simp [value?, Decimal.value]
  · simp [value?]

end Number

end Reckoner
