import Reckoner.Number.Operand
import Reckoner.Proofs.Number.Value

/-!
# Comparison across kinds is comparison of values

Numbers are compared in three ways: as two numbers of one kind, as exact decimals, or with a
stand-in for the finite side when the other side is an infinity or not-a-number.  `order_eq` says
that all three give the order of the extended reals that the numbers denote.

The one exception is an integer of 64 bits that no double holds, next to a double: it is rounded
before it is compared.  `RoundedNextTo` names those pairs.
-/

namespace Reckoner.Number

/-- A machine integer of 64 bits that no double holds, and a double, in either order. -/
def RoundedNextTo (a b : Number) : Prop :=
  ∃ (n : Int64) (x : Binary64), ¬Binary64.Representable n.toInt ∧
    (a = .int64 n ∧ b = .float64 x ∨ a = .float64 x ∧ b = .int64 n)

/-! ## Two numbers of one kind -/

theorem order_of_align? {a b : Number} {aligned : Aligned} (h : align? a b = some aligned) :
    a.order b = aligned.order := by
  rw [order, h]

/-- Integers of every kind are ordered as the extended reals that they denote. -/
theorem order_of_integers {a b : Number} {i j : ℤ} (ha : a.value? = some (i : ℚ))
    (hb : b.value? = some (j : ℚ)) (h : a.order b = some (compare i j)) :
    a.order b = Option.map₂ cmp a.extended? b.extended? := by
  have hcast : StrictMono fun n : ℤ => (n : ℚ) := Int.cast_strictMono
  have hcmp : cmp (toExtended i) (toExtended j) = compare i j := by
    rw [cmp_toExtended, hcast.cmp_map_eq, cmp_eq_compare]
  rw [h, extended?_of_value? ha, extended?_of_value? hb]
  exact congrArg some hcmp.symm

theorem representable_int32 (n : Int32) : Binary64.Representable n.toInt := by
  apply Binary64.representable_of_natAbs_lt
  have hlow := n.le_toInt
  have hhigh := n.toInt_lt
  omega

/-- A number that becomes a double keeps its value, unless it is one of the integers that do not
fit. -/
theorem extended?_toBinary64 {a b : Number} (hkind : a.kind.promote b.kind = .float64)
    (h : ¬a.RoundedNextTo b) : a.toBinary64.extended? = a.extended? := by
  cases a with
  | float64 x => rfl
  | int32 n =>
    exact Binary64.extended?_of_value? (Binary64.value?_ofInteger (representable_int32 n))
  | int64 n =>
    cases b with
    | float64 x =>
      have hfits : Binary64.Representable n.toInt := by
        by_contra hout
        exact h ⟨n, x, hout, Or.inl ⟨rfl, rfl⟩⟩
      exact Binary64.extended?_of_value? (Binary64.value?_ofInteger hfits)
    | _ => cases hkind
  | bigint n => cases b <;> cases hkind
  | decimal d => cases b <;> cases hkind

theorem RoundedNextTo.symm {a b : Number} (h : a.RoundedNextTo b) : b.RoundedNextTo a := by
  obtain ⟨n, x, hout, ⟨ha, hb⟩ | ⟨ha, hb⟩⟩ := h
  · exact ⟨n, x, hout, Or.inr ⟨hb, ha⟩⟩
  · exact ⟨n, x, hout, Or.inl ⟨hb, ha⟩⟩

/-! ## An infinity or not-a-number next to an exact number -/

theorem cmp_infinite (negative : Bool) (p q : ℚ) :
    cmp (if negative then (⊥ : EReal) else ⊤) (toExtended p) =
      cmp (if negative then (⊥ : EReal) else ⊤) (toExtended q) := by
  cases negative with
  | false =>
    have hgt : ∀ r, cmp (⊤ : EReal) (toExtended r) = .gt := fun r =>
      (cmp_eq_gt_iff _ _).2 (toExtended_lt_top r)
    exact (hgt p).trans (hgt q).symm
  | true =>
    have hlt : ∀ r, cmp (⊥ : EReal) (toExtended r) = .lt := fun r =>
      (cmp_eq_lt_iff _ _).2 (bot_lt_toExtended r)
    exact (hlt p).trans (hlt q).symm

/-- Next to an infinity or not-a-number, every rational can stand for every other. -/
theorem map₂_cmp_of_value?_eq_none {x : Binary64} (hx : x.value? = none) (p q : ℚ) :
    Option.map₂ cmp x.extended? (some (toExtended p)) =
      Option.map₂ cmp x.extended? (some (toExtended q)) := by
  cases x with
  | nan => rfl
  | infinite negative => exact congrArg some (cmp_infinite negative p q)
  | finite => cases hx

/-- A number without a rational value is a double, and stands for itself. -/
theorem standIn_of_value?_eq_none {a : Number} (h : a.value? = none) :
    ∃ x, a = .float64 x ∧ x.value? = none ∧ a.standIn = x := by
  cases a with
  | float64 x =>
    have hfinite : x.isFinite = false := by
      have hx : x.value? = none := h
      rw [Binary64.isFinite_eq_isSome_value?, hx]
      rfl
    refine ⟨x, rfl, h, ?_⟩
    rw [standIn, hfinite]
    rfl
  | _ => cases h

/-- What a double meets in the decimals is finite, and zero stands for it. -/
theorem standIn_of_promote_float64 {b : Number} (h : Kind.promote .float64 b.kind = .decimal) :
    b.standIn = Binary64.zero false ∧ ∃ q, b.extended? = some (toExtended q) := by
  cases b with
  | bigint n => exact ⟨rfl, n, rfl⟩
  | decimal d => exact ⟨rfl, d.value, rfl⟩
  | _ => cases h

theorem order_of_left_notFinite {a b : Number} (hkind : a.kind.promote b.kind = .decimal)
    (ha : a.value? = none) :
    a.standIn.compare b.standIn = Option.map₂ cmp a.extended? b.extended? := by
  obtain ⟨x, rfl, hx, hstand⟩ := standIn_of_value?_eq_none ha
  obtain ⟨hzero, q, hq⟩ := standIn_of_promote_float64 hkind
  rw [hstand, hzero, Binary64.compare_eq, Binary64.extended?_zero, hq]
  exact map₂_cmp_of_value?_eq_none hx 0 q

theorem order_of_right_notFinite {a b : Number} (hkind : a.kind.promote b.kind = .decimal)
    (hb : b.value? = none) :
    a.standIn.compare b.standIn = Option.map₂ cmp a.extended? b.extended? := by
  rw [Kind.promote_comm] at hkind
  have hswapped := order_of_left_notFinite hkind hb
  rw [Binary64.compare_eq] at hswapped
  rw [Binary64.compare_eq, ← map₂_cmp_swap, hswapped, map₂_cmp_swap]

/-! ## The order of two numbers -/

/-- Numbers are ordered as the extended reals that they denote; not-a-number has no order. -/
theorem order_eq {a b : Number} (h : ¬a.RoundedNextTo b) :
    a.order b = Option.map₂ cmp a.extended? b.extended? := by
  cases hkind : a.kind.promote b.kind with
  | int32 =>
    obtain ⟨m, n, halign, hm, hn⟩ := align?_int32 hkind
    exact order_of_integers hm hn (order_of_align? halign)
  | int64 =>
    obtain ⟨m, n, halign, hm, hn⟩ := align?_int64 hkind
    exact order_of_integers hm hn (order_of_align? halign)
  | bigint =>
    obtain ⟨m, n, halign, hm, hn⟩ := align?_bigint hkind
    exact order_of_integers hm hn (order_of_align? halign)
  | float64 =>
    have hleft := extended?_toBinary64 hkind h
    have hright : b.toBinary64.extended? = b.extended? := by
      rw [Kind.promote_comm] at hkind
      exact extended?_toBinary64 hkind fun hrounded => h hrounded.symm
    rw [order_of_align? (align?_float64 hkind), ← hleft, ← hright]
    exact Binary64.compare_eq _ _
  | decimal =>
    cases ha : a.value? with
    | none =>
      rw [order, align?_decimal hkind, decimal?_eq_none ha]
      exact order_of_left_notFinite hkind ha
    | some x =>
      obtain ⟨d, hd, rfl, _⟩ := decimal?_of_value? ha
      cases hb : b.value? with
      | none =>
        rw [order, align?_decimal hkind, hd, decimal?_eq_none hb]
        exact order_of_right_notFinite hkind hb
      | some y =>
        obtain ⟨e, he, rfl, _⟩ := decimal?_of_value? hb
        rw [order, align?_decimal hkind, hd, he, extended?_of_value? ha, extended?_of_value? hb]
        refine congrArg some ?_
        rw [cmp_toExtended]
        exact Decimal.compare_eq_cmp d e

/-! ## The three relations -/

section Relations

variable {a b : Number}

/-- Both numbers denote one extended real. -/
def SameValue (a b : Number) : Prop := ∃ v, a.extended? = some v ∧ b.extended? = some v

theorem equal_iff (h : ¬a.RoundedNextTo b) : a.equal b = true ↔ a.SameValue b := by
  rw [equal, beq_iff_eq, order_eq h, map₂_cmp_eq_some_eq, SameValue]

theorem less_iff (h : ¬a.RoundedNextTo b) :
    a.less b = true ↔ ∃ v w, a.extended? = some v ∧ b.extended? = some w ∧ v < w := by
  rw [less, beq_iff_eq, order_eq h, map₂_cmp_eq_some_lt]

theorem lessEqual_iff (h : ¬a.RoundedNextTo b) :
    a.lessEqual b = true ↔ ∃ v w, a.extended? = some v ∧ b.extended? = some w ∧ v ≤ w := by
  rw [lessEqual, Bool.or_eq_true, less_iff h, equal_iff h]
  constructor
  · intro hcases
    rcases hcases with ⟨v, w, hv, hw, hlt⟩ | ⟨v, hv, hw⟩
    · exact ⟨v, w, hv, hw, hlt.le⟩
    · exact ⟨v, v, hv, hw, le_rfl⟩
  · intro hle
    obtain ⟨v, w, hv, hw, hle⟩ := hle
    rcases hle.lt_or_eq with hlt | rfl
    · exact Or.inl ⟨v, w, hv, hw, hlt⟩
    · exact Or.inr ⟨v, hv, hw⟩

end Relations

/-- Numbers of all kinds are compared as the extended reals that they denote, without failure.  The
exception is an integer of 64 bits that no double holds, next to a double. -/
theorem compared_by_value (a b : Number) (h : ¬a.RoundedNextTo b) :
    (∃ r, Operand.equal (.number a) (.number b) = .ok r ∧
      (r = true ↔ ∃ v, a.extended? = some v ∧ b.extended? = some v)) ∧
    (∃ r, Operand.less (.number a) (.number b) = .ok r ∧
      (r = true ↔ ∃ v w, a.extended? = some v ∧ b.extended? = some w ∧ v < w)) ∧
    (∃ r, Operand.lessEqual (.number a) (.number b) = .ok r ∧
      (r = true ↔ ∃ v w, a.extended? = some v ∧ b.extended? = some w ∧ v ≤ w)) :=
  ⟨⟨_, rfl, equal_iff h⟩, ⟨_, rfl, less_iff h⟩, ⟨_, rfl, lessEqual_iff h⟩⟩

/-- The integer three meets the double three exactly. -/
theorem compared_by_value_three :
    ¬(Number.int64 3).RoundedNextTo (.float64 (.finite false 6755399441055744 (-51) (by decide))) ∧
      ∃ r, Operand.equal (.number (.int64 3))
          (.number (.float64 (.finite false 6755399441055744 (-51) (by decide)))) = .ok r ∧
        (r = true ↔ ∃ v, (Number.int64 3).extended? = some v ∧
          (Number.float64 (.finite false 6755399441055744 (-51) (by decide))).extended? =
            some v) := by
  have hexact : ¬(Number.int64 3).RoundedNextTo
      (.float64 (.finite false 6755399441055744 (-51) (by decide))) := by
    intro hrounded
    obtain ⟨n, x, hout, ⟨hn, _⟩ | ⟨hn, _⟩⟩ := hrounded
    · obtain rfl : 3 = n := Number.int64.inj hn
      exact hout (Binary64.representable_of_natAbs_lt (by decide))
    · cases hn
  exact ⟨hexact, (compared_by_value _ _ hexact).1⟩

end Reckoner.Number
