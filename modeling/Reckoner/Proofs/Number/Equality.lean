import Reckoner.Proofs.Number.Comparison

/-!
# Chains of equal numbers

Equality of values is transitive, but an integer of 64 bits next to a double is compared after
rounding.  So a chain of equal numbers need not be a chain of equal values.  What all its members
share is their `meetingPoint`, the extended real at which each of them would meet a double:

* `equal_meets`: equal numbers have one meeting point;
* `equal_iff_of_meets`: numbers with one meeting point are equal exactly if they have the same value
  or are a machine integer of 64 bits and a double.
-/

namespace Reckoner

namespace Binary64

theorem isSome_extended?_nearest (negative : Bool) (num den : ℕ) :
    (nearest negative num den).extended?.isSome := by
  simp only [nearest, pack]
  split_ifs <;> rfl

open Classical in
/-- The extended real at which a value meets a double: an integer is rounded, anything else
stays. -/
noncomputable def meetingPoint (v : EReal) : Option EReal :=
  if h : ∃ n : ℤ, v = toExtended n then (ofInteger h.choose).extended? else some v

theorem meetingPoint_intCast (n : ℤ) : meetingPoint (toExtended n) = (ofInteger n).extended? := by
  have h : ∃ m : ℤ, toExtended n = toExtended m := ⟨n, rfl⟩
  have hchoose : n = h.choose := by exact_mod_cast toExtended_inj.1 h.choose_spec
  rw [meetingPoint, dif_pos h, ← hchoose]

theorem isSome_meetingPoint (v : EReal) : (meetingPoint v).isSome := by
  rw [meetingPoint]
  split_ifs with h
  · exact isSome_extended?_nearest _ _ _
  · rfl

theorem meetingPoint_of_extended? {x : Binary64} {v : EReal} (h : x.extended? = some v) :
    meetingPoint v = some v := by
  by_cases hinteger : ∃ n : ℤ, v = toExtended n
  · obtain ⟨n, rfl⟩ := hinteger
    rw [meetingPoint_intCast]
    exact extended?_of_value? (value?_ofInteger ⟨x, value?_of_extended? h⟩)
  · rw [meetingPoint, dif_neg hinteger]

end Binary64

namespace Number

/-- A machine integer of 64 bits and a double, in either order. -/
def MeetAsDoubles (a b : Number) : Prop :=
  a.kind = .int64 ∧ b.kind = .float64 ∨ a.kind = .float64 ∧ b.kind = .int64

/-- The extended real at which a number meets a double. -/
noncomputable def meetingPoint (a : Number) : Option EReal :=
  a.extended?.bind Binary64.meetingPoint

/-- Two numbers have one meeting point. -/
def Meets (a b : Number) : Prop := ∃ v, a.meetingPoint = some v ∧ b.meetingPoint = some v

variable {a b c : Number}

theorem Meets.trans (hab : a.Meets b) (hbc : b.Meets c) : a.Meets c := common_trans hab hbc

theorem SameValue.trans (hab : a.SameValue b) (hbc : b.SameValue c) : a.SameValue c :=
  common_trans hab hbc

theorem SameValue.meets (h : a.SameValue b) : a.Meets b := by
  obtain ⟨v, ha, hb⟩ := h
  obtain ⟨w, hw⟩ := Option.isSome_iff_exists.1 (Binary64.isSome_meetingPoint v)
  refine ⟨w, ?_, ?_⟩
  · rw [meetingPoint, ha, Option.bind_some, hw]
  · rw [meetingPoint, hb, Option.bind_some, hw]

/-- Numbers that become doubles do so at their meeting point. -/
theorem extended?_toBinary64_eq_meetingPoint (hkind : a.kind.promote b.kind = .float64) :
    a.toBinary64.extended? = a.meetingPoint := by
  cases a with
  | int32 n => exact (Binary64.meetingPoint_intCast _).symm
  | int64 n => exact (Binary64.meetingPoint_intCast _).symm
  | float64 x =>
    cases hx : x.extended? with
    | none => simp [toBinary64, meetingPoint, extended?, hx]
    | some v =>
      simp [toBinary64, meetingPoint, extended?, hx, Binary64.meetingPoint_of_extended? hx]
  | bigint n => cases b <;> cases hkind
  | decimal d => cases b <;> cases hkind

theorem equal_iff_meets (hkind : a.kind.promote b.kind = .float64) :
    a.equal b = true ↔ a.Meets b := by
  have hleft := extended?_toBinary64_eq_meetingPoint hkind
  have hright : b.toBinary64.extended? = b.meetingPoint := by
    rw [Kind.promote_comm] at hkind
    exact extended?_toBinary64_eq_meetingPoint hkind
  rw [equal, beq_iff_eq, order_of_align? (align?_float64 hkind), Aligned.order, Binary64.compare_eq,
    map₂_cmp_eq_some_eq, hleft, hright, Meets]

theorem MeetAsDoubles.promote_eq (h : a.MeetAsDoubles b) : a.kind.promote b.kind = .float64 := by
  rcases h with ⟨ha, hb⟩ | ⟨ha, hb⟩ <;> rw [ha, hb] <;> rfl

theorem RoundedNextTo.meetAsDoubles (h : a.RoundedNextTo b) : a.MeetAsDoubles b := by
  obtain ⟨n, x, _, ⟨rfl, rfl⟩ | ⟨rfl, rfl⟩⟩ := h
  · exact Or.inl ⟨rfl, rfl⟩
  · exact Or.inr ⟨rfl, rfl⟩

/-- Equal numbers have one meeting point. -/
theorem equal_meets (h : a.equal b = true) : a.Meets b := by
  by_cases hdoubles : a.MeetAsDoubles b
  · exact (equal_iff_meets hdoubles.promote_eq).1 h
  · have hexact : ¬a.RoundedNextTo b := fun hrounded => hdoubles hrounded.meetAsDoubles
    exact ((equal_iff hexact).1 h).meets

/-- Numbers with one meeting point are equal exactly if they have the same value or are a machine
integer of 64 bits and a double. -/
theorem equal_iff_of_meets (h : a.Meets b) :
    a.equal b = true ↔ a.SameValue b ∨ a.MeetAsDoubles b := by
  by_cases hdoubles : a.MeetAsDoubles b
  · rw [equal_iff_meets hdoubles.promote_eq]
    exact ⟨fun _ => Or.inr hdoubles, fun _ => h⟩
  · have hexact : ¬a.RoundedNextTo b := fun hrounded => hdoubles hrounded.meetAsDoubles
    rw [equal_iff hexact, or_iff_left hdoubles]

theorem SameValue.equal (h : a.SameValue b) : a.equal b = true :=
  (equal_iff_of_meets h.meets).2 (Or.inl h)

end Number

end Reckoner
