import Mathlib.Order.Bounds.Basic
import Reckoner.Proofs.Number.Division

/-!
# Combining many numbers

Many numbers are combined from left to right, and every step computes in the kind that is promoted
from the result so far and the next number.  The order of the numbers leaves no trace where it
should not:

* the kind of a result is the join of all kinds (`kind_of_foldlM`, `isLUB_foldl_promote`);
* among unbounded integers and decimals a number is determined by its kind, value and exponent, its
  `Profile`.  Sums and products act on profiles by an operation that is commutative and associative
  (`foldlM_exact`), so they do not depend on the order (`foldlM_permuted`).  A product has one more
  thing to watch: the exponents of the partial products, which do depend on it.
-/

namespace Reckoner

/-! ## The order of the kinds -/

namespace Kind

/-- The kinds that are at least as wide as a kind. -/
def atLeast : Kind → List Kind
  | .int32 => [.int32, .int64, .float64, .bigint, .decimal]
  | .int64 => [.int64, .float64, .bigint, .decimal]
  | .float64 => [.float64, .decimal]
  | .bigint => [.bigint, .decimal]
  | .decimal => [.decimal]

/-- The order of the kinds, with promotion as its join. -/
instance : SemilatticeSup Kind where
  le a b := b ∈ a.atLeast
  sup := promote
  le_refl a := by cases a <;> decide
  le_trans a b c := by cases a <;> cases b <;> cases c <;> decide
  le_antisymm a b := by cases a <;> cases b <;> decide
  le_sup_left a b := by cases a <;> cases b <;> decide
  le_sup_right a b := by cases a <;> cases b <;> decide
  sup_le a b c := by cases a <;> cases b <;> cases c <;> decide

theorem promote_le_iff {a b c : Kind} : a.promote b ≤ c ↔ a ≤ c ∧ b ≤ c := sup_le_iff

/-- Promoting kinds one after the other gives their join. -/
theorem isLUB_foldl_promote (k : Kind) (kinds : List Kind) :
    IsLUB {l | l ∈ k :: kinds} (kinds.foldl promote k) := by
  rw [isLUB_iff_le_iff]
  intro bound
  change _ ↔ ∀ l, l ∈ k :: kinds → l ≤ bound
  induction kinds generalizing k with
  | nil => simp
  | cons l kinds ih => simp [ih, promote_le_iff, and_assoc]

end Kind

/-! ## Kinds of results -/

/-- The kind of two numbers of one kind. -/
def Aligned.kind : Aligned → Kind
  | .int32 _ _ => .int32
  | .int64 _ _ => .int64
  | .float64 _ _ => .float64
  | .bigint _ _ => .bigint
  | .decimal _ _ => .decimal

namespace Number

variable {a b r : Number} {aligned : Aligned}

theorem kind_of_align? (h : align? a b = some aligned) :
    aligned.kind = a.kind.promote b.kind := by
  cases hkind : a.kind.promote b.kind with
  | int32 =>
    obtain ⟨m, n, halign, _⟩ := align?_int32 hkind
    cases halign.symm.trans h
    rfl
  | int64 =>
    obtain ⟨m, n, halign, _⟩ := align?_int64 hkind
    cases halign.symm.trans h
    rfl
  | float64 =>
    cases (align?_float64 hkind).symm.trans h
    rfl
  | bigint =>
    obtain ⟨m, n, halign, _⟩ := align?_bigint hkind
    cases halign.symm.trans h
    rfl
  | decimal =>
    rw [align?_decimal hkind, Option.map₂_eq_some_iff] at h
    obtain ⟨d, e, _, _, rfl⟩ := h
    rfl

theorem kind_of_mulDecimal {d e : Decimal} (h : mulDecimal d e = .ok r) : r.kind = .decimal := by
  unfold mulDecimal at h
  split at h <;> cases h
  rfl

theorem kind_of_divDecimal {d e : Decimal} (h : divDecimal d e = .ok r) : r.kind = .decimal := by
  unfold divDecimal at h
  split_ifs at h
  split at h <;> cases h
  rfl

theorem kind_of_quotient (h : aligned.quotient = .ok r) : r.kind = aligned.kind := by
  cases aligned with
  | decimal d e => exact kind_of_divDecimal h
  | float64 x y =>
    cases h
    rfl
  | int32 | int64 | bigint =>
    simp only [Aligned.quotient] at h
    split_ifs at h
    cases h
    rfl

/-- An operation whose results have the promoted kind. -/
def Promotes (operation : Number → Number → Except NumberError Number) : Prop :=
  ∀ a b r, operation a b = .ok r → r.kind = a.kind.promote b.kind

theorem promotes_div : Promotes div := by
  intro a b r h
  have hdiv : _ = Except.ok r := (div_eq a b).symm.trans h
  cases halign : align? a b with
  | none =>
    rw [halign] at hdiv
    cases hdiv
  | some aligned =>
    rw [halign] at hdiv
    rw [kind_of_quotient hdiv, kind_of_align? halign]

/-- The kind of what many numbers are combined to is the join of their kinds. -/
theorem kind_of_foldlM {operation : Number → Number → Except NumberError Number}
    (hoperation : Promotes operation) {numbers : List Number}
    (h : numbers.foldlM operation a = .ok r) :
    r.kind = (numbers.map kind).foldl Kind.promote a.kind := by
  induction numbers generalizing a with
  | nil =>
    cases h
    rfl
  | cons b numbers ih =>
    rw [List.foldlM_cons] at h
    cases hstep : operation a b with
    | error e =>
      rw [hstep] at h
      cases h
    | ok total =>
      rw [hstep] at h
      rw [ih h, hoperation a b total hstep]
      rfl

end Number

namespace RingOperation

variable (op : RingOperation)

theorem kind_of_onAligned {aligned : Aligned} {r : Number} (h : op.onAligned aligned = .ok r) :
    r.kind = aligned.kind := by
  cases aligned with
  | decimal d e =>
    cases op with
    | mul => exact Number.kind_of_mulDecimal h
    | add | sub =>
      cases h
      rfl
  | _ =>
    cases h
    rfl

theorem promotes_apply : Number.Promotes op.apply := by
  intro a b r h
  rw [apply_eq] at h
  cases halign : Number.align? a b with
  | none =>
    rw [halign] at h
    cases h
  | some aligned =>
    rw [halign] at h
    rw [op.kind_of_onAligned h, Number.kind_of_align? halign]

end RingOperation

/-! ## Profiles of exact numbers -/

/-- What an unbounded integer or a decimal is determined by. -/
@[ext] structure Profile where
  kind : Kind
  value : ℚ
  exponent : ℤ

namespace Number

/-- Whether a number is an unbounded integer or a decimal. -/
def IsExact (n : Number) : Prop := n.kind = .bigint ∨ n.kind = .decimal

/-- The profile of a number. -/
def profile (n : Number) : Profile := ⟨n.kind, n.value?.getD 0, n.decimalExponent⟩

theorem isExact_iff {n : Number} : n.IsExact ↔ (∃ m, n = .bigint m) ∨ ∃ d, n = .decimal d := by
  cases n <;> simp [IsExact, kind]

theorem IsExact.value? {n : Number} (h : n.IsExact) : n.value? = some n.profile.value := by
  obtain ⟨m, rfl⟩ | ⟨d, rfl⟩ := isExact_iff.1 h <;> rfl

/-- The exponent of an exact number is in range. -/
theorem IsExact.fits {n : Number} (h : n.IsExact) : FitsInt32 n.decimalExponent := by
  obtain ⟨m, rfl⟩ | ⟨d, rfl⟩ := isExact_iff.1 h
  · exact (by decide : FitsInt32 0)
  · exact d.fits

/-- Decimals of one exponent and one value have one coefficient. -/
theorem eq_of_profile_eq {a b : Number} (ha : a.IsExact) (h : a.profile = b.profile) : a = b := by
  obtain ⟨hkind, hvalue, hexponent⟩ := Profile.ext_iff.1 h
  cases a <;> cases b <;> cases hkind
  case bigint.bigint m n => exact congrArg Number.bigint (Int.cast_injective hvalue)
  case decimal.decimal d e =>
    obtain ⟨c, k, hk⟩ := d
    obtain ⟨c', k', hk'⟩ := e
    obtain rfl : k = k' := hexponent
    have hten : (10 : ℚ) ^ k ≠ 0 := zpow_ne_zero k (by norm_num)
    have hc : (c : ℚ) = c' := mul_right_cancel₀ hten hvalue
    rw [Int.cast_injective hc]
  all_goals rcases ha with ha | ha <;> cases ha

end Number

namespace RingOperation

variable (op : RingOperation)

/-- The operation on profiles: kinds are promoted, values computed exactly, exponents combined. -/
def onProfiles (p q : Profile) : Profile :=
  ⟨p.kind.promote q.kind, op.exact p.value q.value, op.exponent p.exponent q.exponent⟩

instance : Std.Commutative (onProfiles .add) where
  comm _ _ := Profile.ext (Kind.promote_comm _ _) (add_comm _ _) (min_comm _ _)

instance : Std.Associative (onProfiles .add) where
  assoc _ _ _ := Profile.ext (Kind.promote_assoc _ _ _) (add_assoc _ _ _) (min_assoc _ _ _)

instance : Std.Commutative (onProfiles .mul) where
  comm _ _ := Profile.ext (Kind.promote_comm _ _) (mul_comm _ _) (add_comm _ _)

instance : Std.Associative (onProfiles .mul) where
  assoc _ _ _ := Profile.ext (Kind.promote_assoc _ _ _) (mul_assoc _ _ _) (add_assoc _ _ _)

variable {a b : Number}

theorem apply_meeting (h : a.kind.promote b.kind = .decimal) (ha : a.IsExact) (hb : b.IsExact)
    (hfits : op = .mul → FitsInt32 (a.decimalExponent + b.decimalExponent)) :
    ∃ r, op.apply a b = .ok r ∧ r.IsExact ∧ r.profile = op.onProfiles a.profile b.profile := by
  have hover : ¬op.Overflows a b := fun ⟨hmul, _, hout⟩ => hout (hfits hmul)
  obtain ⟨r, hr, hresult⟩ := op.apply_decimal h ha.value? hb.value? hover
  have hkind : r.kind = .decimal := hresult.kind_eq.trans h
  refine ⟨r, hr, .inr hkind, Profile.ext hresult.kind_eq ?_ ?_⟩
  · exact congrArg (Option.getD · 0) (hresult.value_eq (.inr hkind))
  · obtain ⟨m, rfl⟩ | ⟨d, rfl⟩ := Number.isExact_iff.1 (.inr hkind)
    · cases hkind
    · exact hresult.exponent_eq d rfl

/-- One step on exact numbers acts on profiles, unless its exponent is out of range. -/
theorem apply_exact (ha : a.IsExact) (hb : b.IsExact)
    (hfits : op = .mul → FitsInt32 (a.decimalExponent + b.decimalExponent)) :
    ∃ r, op.apply a b = .ok r ∧ r.IsExact ∧ r.profile = op.onProfiles a.profile b.profile := by
  obtain ⟨m, rfl⟩ | ⟨d, rfl⟩ := Number.isExact_iff.1 ha
  · obtain ⟨n, rfl⟩ | ⟨e, rfl⟩ := Number.isExact_iff.1 hb
    · have halign : Number.align? (.bigint m) (.bigint n) = some (.bigint m n) := rfl
      refine ⟨.bigint (op.exact m n), op.apply_of_align? halign, .inl rfl, Profile.ext rfl ?_ ?_⟩
      · exact op.cast_exact m n
      · cases op <;> rfl
    · exact op.apply_meeting rfl ha hb hfits
  · exact op.apply_meeting rfl ha hb hfits

/-- A product of exact numbers exists only if its exponent is in range. -/
theorem fits_of_apply_mul {r : Number} (ha : a.IsExact) (hb : b.IsExact)
    (h : apply .mul a b = .ok r) : FitsInt32 (a.decimalExponent + b.decimalExponent) := by
  by_contra hout
  by_cases hkind : a.kind.promote b.kind = .decimal
  · rw [apply_overflow .mul ha.value? hb.value? ⟨rfl, hkind, hout⟩] at h
    cases h
  · obtain ⟨m, rfl⟩ | ⟨d, rfl⟩ := Number.isExact_iff.1 ha
    · obtain ⟨n, rfl⟩ | ⟨e, rfl⟩ := Number.isExact_iff.1 hb
      · exact hout (by decide : FitsInt32 (0 + 0))
      · exact hkind rfl
    · exact hkind rfl

/-! ## Folding exact numbers -/

/-- The exponents of all partial products, from left to right, are in range. -/
def ExponentsFit (numbers : List Number) : Prop :=
  ∀ count, FitsInt32 ((numbers.take count).map Number.decimalExponent).sum

theorem exponentsFit_cons_cons {r : Number} {rest : List Number} (ha : a.IsExact)
    (hexponent : r.decimalExponent = a.decimalExponent + b.decimalExponent) :
    ExponentsFit (a :: b :: rest) ↔ ExponentsFit (r :: rest) := by
  have hsum (count : ℕ) :
      (((a :: b :: rest).take (count + 2)).map Number.decimalExponent).sum =
        (((r :: rest).take (count + 1)).map Number.decimalExponent).sum := by
    simp [hexponent, add_assoc]
  constructor
  · intro h count
    cases count with
    | zero => exact (by decide : FitsInt32 0)
    | succ count =>
      rw [← hsum]
      exact h (count + 2)
  · intro h count
    match count with
    | 0 => exact (by decide : FitsInt32 0)
    | 1 => simpa using ha.fits
    | count + 2 =>
      rw [hsum]
      exact h (count + 1)

/-- Combining exact numbers acts on their profiles, unless an exponent is out of range. -/
theorem foldlM_exact {numbers : List Number} (ha : a.IsExact) (hnumbers : ∀ n ∈ numbers, n.IsExact)
    (hfits : op = .mul → ExponentsFit (a :: numbers)) :
    ∃ r, numbers.foldlM op.apply a = .ok r ∧ r.IsExact ∧
      r.profile = (numbers.map Number.profile).foldl op.onProfiles a.profile := by
  induction numbers generalizing a with
  | nil => exact ⟨a, rfl, ha, rfl⟩
  | cons b numbers ih =>
    obtain ⟨hb, hnumbers⟩ := List.forall_mem_cons.1 hnumbers
    obtain ⟨total, htotal, hexact, hprofile⟩ :=
      op.apply_exact ha hb fun hmul => by simpa using hfits hmul 2
    have hlater : op = .mul → ExponentsFit (total :: numbers) := by
      rintro rfl
      exact (exponentsFit_cons_cons ha (congrArg Profile.exponent hprofile)).1 (hfits rfl)
    obtain ⟨r, hr, hrexact, hrprofile⟩ := ih hexact hnumbers hlater
    refine ⟨r, ?_, hrexact, ?_⟩
    · rw [List.foldlM_cons, htotal]
      exact hr
    · rw [hrprofile, hprofile]
      rfl

/-- A product of many exact numbers exists only if all exponents on the way are in range. -/
theorem exponentsFit_of_foldlM {numbers : List Number} {r : Number} (ha : a.IsExact)
    (hnumbers : ∀ n ∈ numbers, n.IsExact) (h : numbers.foldlM (apply .mul) a = .ok r) :
    ExponentsFit (a :: numbers) := by
  induction numbers generalizing a with
  | nil =>
    intro count
    cases count with
    | zero => exact (by decide : FitsInt32 0)
    | succ count => simpa using ha.fits
  | cons b numbers ih =>
    obtain ⟨hb, hnumbers⟩ := List.forall_mem_cons.1 hnumbers
    rw [List.foldlM_cons] at h
    cases htotal : apply .mul a b with
    | error e =>
      rw [htotal] at h
      cases h
    | ok total =>
      have hfits := fits_of_apply_mul ha hb htotal
      obtain ⟨total', htotal', hexact, hprofile⟩ := apply_exact .mul ha hb fun _ => hfits
      obtain rfl : total = total' := Except.ok.inj (htotal.symm.trans htotal')
      rw [htotal] at h
      have hrest := ih hexact hnumbers h
      exact (exponentsFit_cons_cons ha (congrArg Profile.exponent hprofile)).2 hrest

/-- Folding by a commutative and associative operation, from the first element on, does not depend
on the order. -/
theorem foldl_eq_of_perm {α : Type} (f : α → α → α) [Std.Commutative f] [Std.Associative f]
    {x y : α} {xs ys : List α} (h : (x :: xs).Perm (y :: ys)) : xs.foldl f x = ys.foldl f y := by
  -- with nothing to start from, `none` takes the place of the first element
  have hmerge (z : α) (zs : List α) :
      (zs.map some).foldl (Option.merge f) (some z) = some (zs.foldl f z) := by
    induction zs generalizing z with
    | nil => rfl
    | cons w zs ih => exact ih (f z w)
  have hmerged : ((x :: xs).map some).foldl (Option.merge f) none =
      ((y :: ys).map some).foldl (Option.merge f) none := (h.map some).foldl_op_eq
  exact Option.some.inj ((hmerge x xs).symm.trans (hmerged.trans (hmerge y ys)))

/-- A sum or a product of exact numbers is the same in every order, if all exponents on the way are
in range. -/
theorem foldlM_permuted {numbers numbers' : List Number} [Std.Commutative op.onProfiles]
    [Std.Associative op.onProfiles] (hperm : (a :: numbers).Perm (b :: numbers'))
    (hexact : ∀ n ∈ a :: numbers, n.IsExact) (hfits : op = .mul → ExponentsFit (a :: numbers))
    (hfits' : op = .mul → ExponentsFit (b :: numbers')) :
    ∃ r, numbers.foldlM op.apply a = .ok r ∧ numbers'.foldlM op.apply b = .ok r := by
  have hexact' : ∀ n ∈ b :: numbers', n.IsExact := fun n hn => hexact n (hperm.mem_iff.2 hn)
  obtain ⟨ha, hnumbers⟩ := List.forall_mem_cons.1 hexact
  obtain ⟨hb, hnumbers'⟩ := List.forall_mem_cons.1 hexact'
  obtain ⟨r, hr, hrexact, hprofile⟩ := op.foldlM_exact ha hnumbers hfits
  obtain ⟨r', hr', _, hprofile'⟩ := op.foldlM_exact hb hnumbers' hfits'
  have hsame : r.profile = r'.profile := by
    rw [hprofile, hprofile', foldl_eq_of_perm op.onProfiles (hperm.map Number.profile)]
  rw [← Number.eq_of_profile_eq hrexact hsame] at hr'
  exact ⟨r, hr, hr'⟩

end RingOperation

end Reckoner
