import Reckoner.Proofs.Builtin.Operands
import Reckoner.Proofs.Number.Folding

/-!
# Arithmetic on many arguments

The builtins of arithmetic combine the numbers among their arguments (`combine_numbers`), so what
holds of combining numbers holds of calls: the kind of a result is the join of the kinds of all
arguments, and sums and products of unbounded integers and decimals do not depend on the order of
the arguments.
-/

namespace Reckoner.Builtin

/-- The numbers among some values. -/
def numbers (arguments : List Datum) : List Number := arguments.filterMap Datum.number?

/-- The builtins of arithmetic on many arguments. -/
def arithmetic : List Builtin := [.add, .subtract, .multiply, .divide]

variable {operator : String} {operation : Number → Number → Except NumberError Number}

theorem foldlM_numbers {total : Number} {rest : List Datum}
    (hrest : ∀ x ∈ rest, isStranger x = false) :
    rest.foldlM
        (fun total x => ofNumber (Operand.binary operator total.operand x.operand operation))
        (Datum.number total) =
      ofNumber ((numbers rest).foldlM operation total) := by
  induction rest generalizing total with
  | nil => rfl
  | cons x rest ih =>
    obtain ⟨hx, hrest⟩ := List.forall_mem_cons.1 hrest
    obtain ⟨n, hn⟩ := Option.isSome_iff_exists.1 (Option.isNone_eq_false_iff.1 hx)
    have hnumbers : numbers (x :: rest) = n :: numbers rest := List.filterMap_cons_some hn
    rw [hnumbers, List.foldlM_cons, List.foldlM_cons, Datum.operand, Datum.operand, hn]
    cases hstep : operation total n with
    | error e => simp [Datum.number?, hstep, ofNumber, bind, Except.bind]
    | ok next =>
      simpa [Datum.number?, hstep, ofNumber, bind, Except.bind] using ih hrest

/-- Two or more numbers are combined as numbers, whatever values they are taken from. -/
theorem combine_numbers (operator : String)
    (operation : Number → Number → Except NumberError Number) {x y : Datum} {rest : List Datum}
    (h : ∀ z ∈ x :: y :: rest, isStranger z = false) :
    ∃ n others, numbers (x :: y :: rest) = n :: others ∧
      combine (fun a b => Operand.binary operator a b operation) (x :: y :: rest) =
        ofNumber (others.foldlM operation n) := by
  obtain ⟨hx, hrest⟩ := List.forall_mem_cons.1 h
  obtain ⟨n, hn⟩ := Option.isSome_iff_exists.1 (Option.isNone_eq_false_iff.1 hx)
  refine ⟨n, numbers (y :: rest), List.filterMap_cons_some hn, ?_⟩
  have hoperand : x.operand = (Datum.number n).operand := by
    rw [Datum.operand, hn]
    rfl
  rw [← foldlM_numbers hrest, combine, List.foldlM_cons, List.foldlM_cons, hoperand]

/-- The builtins of arithmetic combine two or more arguments by an operation whose results have the
promoted kind. -/
theorem arithmetic_combines {b : Builtin} (hb : b ∈ arithmetic) :
    ∃ operator operation, Number.Promotes operation ∧ ∀ x y rest,
      compute? b (x :: y :: rest) =
        some (combine (fun m n => Operand.binary operator m n operation) (x :: y :: rest)) := by
  simp only [arithmetic, List.mem_cons, List.not_mem_nil, or_false] at hb
  rcases hb with rfl | rfl | rfl | rfl
  · exact ⟨"+", Number.add, RingOperation.add.promotes_apply, fun _ _ _ => rfl⟩
  · exact ⟨"-", Number.sub, RingOperation.sub.promotes_apply, fun _ _ _ => rfl⟩
  · exact ⟨"*", Number.mul, RingOperation.mul.promotes_apply, fun _ _ _ => rfl⟩
  · exact ⟨"/", Number.div, Number.promotes_div, fun _ _ _ => rfl⟩

theorem run_eq_ok_iff {b : Builtin} {arguments : List Datum} {i : Interpreter} {v : Datum}
    {result : Except Fault Datum} (hresult : compute? b arguments = some result) :
    ((b.run arguments).runFrom i).1 = .ok v ↔ result = .ok v := by
  unfold run
  rw [hresult]
  constructor
  · intro h
    cases result with
    | ok value =>
      cases h
      rfl
    | error fault => cases h
  · rintro rfl
    rfl

section

variable {arguments : List Datum}

theorem exists_cons_cons {α : Type} {xs : List α} (hmany : 2 ≤ xs.length) :
    ∃ x y rest, xs = x :: y :: rest := by
  match xs with
  | x :: y :: rest => exact ⟨x, y, rest, rfl⟩
  | [] | [_] => simp at hmany

/-- The kind of a result is the join of the kinds of all arguments. -/
theorem isLUB_kind_of_run {b : Builtin} (hb : b ∈ arithmetic)
    (hnumbers : ∀ x ∈ arguments, isStranger x = false) (hmany : 2 ≤ arguments.length)
    {i : Interpreter} {v : Datum} (h : ((b.run arguments).runFrom i).1 = .ok v) :
    ∃ r, v = .number r ∧ IsLUB {k | k ∈ (numbers arguments).map Number.kind} r.kind := by
  obtain ⟨x, y, rest, rfl⟩ := exists_cons_cons hmany
  obtain ⟨operator, operation, hpromotes, hcompute⟩ := arithmetic_combines hb
  obtain ⟨n, others, hlist, hcombine⟩ := combine_numbers operator operation hnumbers
  rw [run_eq_ok_iff (hcompute x y rest), hcombine] at h
  cases hfold : others.foldlM operation n with
  | error e =>
    rw [hfold] at h
    cases h
  | ok r =>
    rw [hfold] at h
    cases h
    refine ⟨r, rfl, ?_⟩
    rw [hlist, Number.kind_of_foldlM hpromotes hfold]
    exact Kind.isLUB_foldl_promote n.kind (others.map Number.kind)

/-- The builtin of an operation. -/
def ofRingOperation : RingOperation → Builtin
  | .add => .add
  | .sub => .subtract
  | .mul => .multiply

/-- A call with two or more numbers has a result exactly if combining the numbers has. -/
theorem run_ringOperation (op : RingOperation) (hnumbers : ∀ x ∈ arguments, isStranger x = false)
    (hmany : 2 ≤ arguments.length) :
    ∃ n others, numbers arguments = n :: others ∧ ∀ (i : Interpreter) (v : Datum),
      (((ofRingOperation op).run arguments).runFrom i).1 = .ok v ↔
        ∃ r, v = .number r ∧ others.foldlM op.apply n = .ok r := by
  obtain ⟨x, y, rest, rfl⟩ := exists_cons_cons hmany
  obtain ⟨n, others, hlist, hcombine⟩ := combine_numbers op.symbol op.apply hnumbers
  refine ⟨n, others, hlist, fun i v => ?_⟩
  have hcompute : compute? (ofRingOperation op) (x :: y :: rest) =
      some (combine (fun a b => Operand.binary op.symbol a b op.apply) (x :: y :: rest)) := by
    cases op <;> rfl
  rw [run_eq_ok_iff hcompute, hcombine]
  cases others.foldlM op.apply n with
  | error e => simp [ofNumber]
  | ok r => simp [ofNumber, eq_comm]

/-- A sum or a product of exact numbers is the same in every order, if all exponents on the way are
in range. -/
theorem run_permuted (op : RingOperation) [Std.Commutative op.onProfiles]
    [Std.Associative op.onProfiles] (hnumbers : ∀ x ∈ arguments, isStranger x = false)
    (hmany : 2 ≤ arguments.length) (hexact : ∀ n ∈ numbers arguments, n.IsExact)
    {permuted : List Datum} (hperm : permuted.Perm arguments)
    (hfits : op = .mul → RingOperation.ExponentsFit (numbers arguments))
    (hfits' : op = .mul → RingOperation.ExponentsFit (numbers permuted)) (i j : Interpreter) :
    ∃ r, (((ofRingOperation op).run arguments).runFrom i).1 = .ok (.number r) ∧
      (((ofRingOperation op).run permuted).runFrom j).1 = .ok (.number r) := by
  have hnumbers' : ∀ x ∈ permuted, isStranger x = false := fun x hx =>
    hnumbers x (hperm.mem_iff.1 hx)
  obtain ⟨n, others, hlist, hrun⟩ := run_ringOperation op hnumbers hmany
  obtain ⟨n', others', hlist', hrun'⟩ :=
    run_ringOperation op hnumbers' (hmany.trans_eq hperm.length_eq.symm)
  have hlists : (n :: others).Perm (n' :: others') := by
    rw [← hlist, ← hlist']
    exact (hperm.filterMap Datum.number?).symm
  rw [hlist] at hexact hfits
  rw [hlist'] at hfits'
  obtain ⟨r, hr, hr'⟩ := op.foldlM_permuted hlists hexact hfits hfits'
  exact ⟨r, (hrun i _).2 ⟨r, rfl, hr⟩, (hrun' j _).2 ⟨r, rfl, hr'⟩⟩

/-- A product of exact numbers exists exactly if all exponents on the way are in range. -/
theorem run_multiply_iff (hnumbers : ∀ x ∈ arguments, isStranger x = false)
    (hmany : 2 ≤ arguments.length) (hexact : ∀ n ∈ numbers arguments, n.IsExact) (i : Interpreter) :
    (∃ v, ((Builtin.multiply.run arguments).runFrom i).1 = .ok v) ↔
      RingOperation.ExponentsFit (numbers arguments) := by
  obtain ⟨n, others, hlist, hrun⟩ := run_ringOperation .mul hnumbers hmany
  rw [hlist, List.forall_mem_cons] at hexact
  rw [hlist]
  constructor
  · rintro ⟨v, hv⟩
    obtain ⟨r, _, hr⟩ := (hrun i v).1 hv
    exact RingOperation.exponentsFit_of_foldlM hexact.1 hexact.2 hr
  · intro hfits
    obtain ⟨r, hr, _⟩ := RingOperation.foldlM_exact .mul hexact.1 hexact.2 fun _ => hfits
    exact ⟨.number r, (hrun i _).2 ⟨r, rfl, hr⟩⟩

/-- The order of two or more numbers.  If arithmetic on them has a result, its kind is the join of
their kinds, and so the same for every order that has a result.  If all of them are unbounded
integers or decimals, a sum is the same number in every order, and so is a product if the exponents
of the partial products are in range in both orders; a product has no result exactly if they are
not. -/
theorem arithmetic_permuted (hnumbers : ∀ x ∈ arguments, isStranger x = false)
    (hmany : 2 ≤ arguments.length) {permuted : List Datum} (hperm : permuted.Perm arguments)
    (i j : Interpreter) :
    (∀ b ∈ arithmetic, ∀ v, ((b.run arguments).runFrom i).1 = .ok v →
      ∃ r, v = .number r ∧ IsLUB {k | k ∈ (numbers arguments).map Number.kind} r.kind ∧
        ∀ w, ((b.run permuted).runFrom j).1 = .ok w → ∃ s, w = .number s ∧ s.kind = r.kind) ∧
    ((∀ n ∈ numbers arguments, n.IsExact) →
      (∃ r, ((Builtin.add.run arguments).runFrom i).1 = .ok (.number r) ∧
        ((Builtin.add.run permuted).runFrom j).1 = .ok (.number r)) ∧
      ((∃ v, ((Builtin.multiply.run arguments).runFrom i).1 = .ok v) ↔
        RingOperation.ExponentsFit (numbers arguments)) ∧
      (RingOperation.ExponentsFit (numbers arguments) →
        RingOperation.ExponentsFit (numbers permuted) →
        ∃ r, ((Builtin.multiply.run arguments).runFrom i).1 = .ok (.number r) ∧
          ((Builtin.multiply.run permuted).runFrom j).1 = .ok (.number r))) := by
  constructor
  · intro b hb v hv
    obtain ⟨r, rfl, hlub⟩ := isLUB_kind_of_run hb hnumbers hmany hv
    refine ⟨r, rfl, hlub, ?_⟩
    intro w hw
    have hnumbers' : ∀ x ∈ permuted, isStranger x = false := fun x hx =>
      hnumbers x (hperm.mem_iff.1 hx)
    obtain ⟨s, rfl, hlub'⟩ :=
      isLUB_kind_of_run hb hnumbers' (hmany.trans_eq hperm.length_eq.symm) hw
    have hsame : {k | k ∈ (numbers permuted).map Number.kind} =
        {k | k ∈ (numbers arguments).map Number.kind} :=
      Set.ext fun k => ((hperm.filterMap Datum.number?).map Number.kind).mem_iff
    rw [hsame] at hlub'
    exact ⟨s, rfl, hlub'.unique hlub⟩
  · intro hexact
    refine ⟨?_, run_multiply_iff hnumbers hmany hexact i, fun hfits hfits' => ?_⟩
    · have hadd : ∀ P : Prop, RingOperation.add = .mul → P := by
        rintro P ⟨⟩
      exact run_permuted .add hnumbers hmany hexact hperm (hadd _) (hadd _) i j
    · exact run_permuted .mul hnumbers hmany hexact hperm (fun _ => hfits) (fun _ => hfits') i j

/-- Two, one half and three hundred, from left to right and from right to left. -/
theorem arithmetic_permuted_three :
    let arguments : List Datum :=
      [.number (.bigint 2), .number (.decimal ⟨5, -1, by decide⟩),
        .number (.decimal ⟨3, 2, by decide⟩)]
    ((Builtin.add.run arguments).runFrom .initial).1 =
        .ok (.number (.decimal ⟨3025, -1, by decide⟩)) ∧
      ((Builtin.add.run arguments.reverse).runFrom .initial).1 =
        .ok (.number (.decimal ⟨3025, -1, by decide⟩)) ∧
      ((Builtin.multiply.run arguments.reverse).runFrom .initial).1 =
        .ok (.number (.decimal ⟨30, 1, by decide⟩)) := by
  intro arguments
  have hnumbers : ∀ x ∈ arguments, isStranger x = false := by decide
  have hexact : ∀ n ∈ numbers arguments, n.IsExact := by
    simp [numbers, arguments, Datum.number?, Number.IsExact, Number.kind]
  have hfits : RingOperation.ExponentsFit (numbers arguments.reverse) := by
    intro count
    rcases count with _ | _ | _ | count
    · decide
    · decide
    · decide
    · have hall : (numbers arguments.reverse).length ≤ count + 3 := Nat.le_add_left 3 count
      rw [List.take_of_length_le hall]
      decide
  obtain ⟨_, hsame⟩ := arithmetic_permuted hnumbers (by decide) (List.reverse_perm arguments)
    .initial .initial
  obtain ⟨⟨r, hsum, hsum'⟩, hproduct, hproducts⟩ := hsame hexact
  obtain ⟨p, hp, hp'⟩ := hproducts (hproduct.1 ⟨_, rfl⟩) hfits
  exact ⟨rfl, hsum'.trans (hsum.symm.trans rfl), hp'.trans (hp.symm.trans rfl)⟩

end

end Reckoner.Builtin
