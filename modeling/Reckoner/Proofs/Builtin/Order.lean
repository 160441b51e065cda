import Reckoner.Proofs.Builtin.Arithmetic
import Reckoner.Proofs.Builtin.Comparison

/-!
# Comparison of many numbers decides their order

The builtins of comparison look at neighbours and stop at the first pair that fails.  On numbers
they never fail themselves, and `run_comparison` gives their answer: whether the numbers are a
chain.

Where no integer is rounded next to a double, the test of two neighbours is a relation between the
extended reals that they denote.  That relation is transitive, so a chain says something about every
pair.  The descending comparisons exchange the two sides of each test, which is the same as going
through the numbers from the other end.
-/

namespace Reckoner

namespace Builtin

/-- The test that a builtin of comparison makes on neighbours. -/
def neighbourTest? : Builtin → Option (Number → Number → Bool)
  | .equal => some Number.equal
  | .less => some Number.less
  | .lessEqual => some Number.lessEqual
  | .greater => some fun m n => n.less m
  | .greaterEqual => some fun m n => n.lessEqual m
  | _ => none

/-! ## The answer to a comparison of numbers -/

section Answer

variable {arguments : List Datum} {holds : Number → Number → Bool}

theorem operand_of_number? {x : Datum} {n : Number} (h : x.number? = some n) :
    x.operand = .number n := by
  rw [Datum.operand, h]

/-- A relation that is a test on numbers is asked of neighbours only, and has an answer. -/
theorem related_numbers {relation : Operand → Operand → Except NumberError Bool}
    (hrelation : ∀ m n, relation (.number m) (.number n) = .ok (holds m n))
    (hnumbers : ∀ x ∈ arguments, isStranger x = false) :
    related relation arguments =
      .ok (decide ((numbers arguments).IsChain fun m n => holds m n = true)) := by
  induction arguments with
  | nil => simp [related, numbers, pure, Except.pure]
  | cons x rest ih =>
    obtain ⟨hx, hrest⟩ := List.forall_mem_cons.1 hnumbers
    obtain ⟨m, hm⟩ := Option.isSome_iff_exists.1 (Option.isNone_eq_false_iff.1 hx)
    cases rest with
    | nil => simp [related, numbers, hm, pure, Except.pure]
    | cons y rest =>
      obtain ⟨hy, _⟩ := List.forall_mem_cons.1 hrest
      obtain ⟨n, hn⟩ := Option.isSome_iff_exists.1 (Option.isNone_eq_false_iff.1 hy)
      have hlater : numbers (y :: rest) = n :: numbers rest := List.filterMap_cons_some hn
      have hall : numbers (x :: y :: rest) = m :: n :: numbers rest := by
        rw [← hlater]
        exact List.filterMap_cons_some hm
      rw [related, ih hrest, operand_of_number? hm, operand_of_number? hn, hrelation, hall, hlater]
      cases htest : holds m n <;> simp [htest, bind, Except.bind, pure, Except.pure]

theorem compute?_comparison {b : Builtin} (hb : neighbourTest? b = some holds)
    (hnumbers : ∀ x ∈ arguments, isStranger x = false) :
    compute? b arguments =
      some (.ok (.bool (decide ((numbers arguments).IsChain fun m n => holds m n = true)))) := by
  have hanswer {relation : Operand → Operand → Except NumberError Bool}
      (hrelation : ∀ m n, relation (.number m) (.number n) = .ok (holds m n)) :
      some (ofBool (related relation arguments)) =
        some (.ok (.bool (decide ((numbers arguments).IsChain fun m n => holds m n = true)))) := by
    rw [related_numbers hrelation hnumbers]
    rfl
  cases b <;> cases hb
  case equal => exact hanswer fun _ _ => rfl
  case less => exact hanswer fun _ _ => rfl
  case greater => exact hanswer fun _ _ => rfl
  case lessEqual => exact hanswer fun _ _ => rfl
  case greaterEqual => exact hanswer fun _ _ => rfl

/-- A comparison of numbers says whether its test holds between neighbours. -/
theorem run_comparison {b : Builtin} (hb : neighbourTest? b = some holds)
    (hnumbers : ∀ x ∈ arguments, isStranger x = false) (i : Interpreter) :
    (b.run arguments).runFrom i =
      (.ok (.bool (decide ((numbers arguments).IsChain fun m n => holds m n = true))), i) := by
  unfold run
  rw [compute?_comparison hb hnumbers]
  rfl

theorem numbers_reverse (arguments : List Datum) :
    numbers arguments.reverse = (numbers arguments).reverse :=
  List.filterMap_reverse

/-- Exchanging the sides of each test is going through the numbers from the other end. -/
theorem run_exchanged {b b' : Builtin} (hb : neighbourTest? b = some holds)
    (hb' : neighbourTest? b' = some fun m n => holds n m)
    (hnumbers : ∀ x ∈ arguments, isStranger x = false) (i : Interpreter) :
    (b'.run arguments).runFrom i = (b.run arguments.reverse).runFrom i := by
  have hnumbers' : ∀ x ∈ arguments.reverse, isStranger x = false := fun x hx =>
    hnumbers x (List.mem_reverse.1 hx)
  have hchain : (numbers arguments.reverse).IsChain (fun m n => holds m n = true) ↔
      (numbers arguments).IsChain fun m n => holds n m = true := by
    rw [numbers_reverse, List.isChain_reverse]
  rw [run_comparison hb hnumbers', run_comparison hb' hnumbers, decide_eq_decide.2 hchain]

end Answer

end Builtin

/-! ## From neighbours to all pairs -/

namespace Number

/-- Both numbers denote extended reals, in some relation. -/
def Denote (r : EReal → EReal → Prop) (m n : Number) : Prop :=
  ∃ v w, m.extended? = some v ∧ n.extended? = some w ∧ r v w

instance {r : EReal → EReal → Prop} [Trans r r r] : Trans (Denote r) (Denote r) (Denote r) where
  trans := by
    intro a b c hab hbc
    obtain ⟨v, w, ha, hb, hvw⟩ := hab
    obtain ⟨w', u, hb', hc, hwu⟩ := hbc
    obtain rfl : w = w' := Option.some.inj (hb.symm.trans hb')
    exact ⟨v, u, ha, hc, Trans.trans hvw hwu⟩

theorem sameValue_iff_denote {m n : Number} : m.SameValue n ↔ m.Denote (· = ·) n := by
  constructor
  · rintro ⟨v, hm, hn⟩
    exact ⟨v, v, hm, hn, rfl⟩
  · rintro ⟨v, _, hm, hn, rfl⟩
    exact ⟨v, hm, hn⟩

/-- Some numbers have no double next to an integer of 64 bits that no double holds. -/
def KeepsIntegers (ns : List Number) : Prop :=
  ∀ (x : Binary64) (n : Int64), .float64 x ∈ ns → .int64 n ∈ ns → Binary64.Representable n.toInt

variable {ns : List Number}

theorem KeepsIntegers.not_roundedNextTo (h : KeepsIntegers ns) {a b : Number} (ha : a ∈ ns)
    (hb : b ∈ ns) : ¬a.RoundedNextTo b := by
  rintro ⟨n, x, hout, ⟨rfl, rfl⟩ | ⟨rfl, rfl⟩⟩
  · exact hout (h x n hb ha)
  · exact hout (h x n ha hb)

/-- A test of neighbours that is a transitive relation between values is a test of all pairs. -/
theorem isChain_iff_pairwise_denote {holds : Number → Number → Bool} {r : EReal → EReal → Prop}
    [Trans r r r] (hns : KeepsIntegers ns)
    (hholds : ∀ a b : Number, ¬a.RoundedNextTo b → (holds a b = true ↔ a.Denote r b)) :
    ns.IsChain (fun m n => holds m n = true) ↔ ns.Pairwise (Denote r) := by
  rw [← List.isChain_iff_pairwise]
  exact List.IsChain.iff_of_mem_imp fun a b ha hb => hholds a b (hns.not_roundedNextTo ha hb)

theorem exists_extended?_of_pairwise {r : EReal → EReal → Prop} (hmany : 2 ≤ ns.length)
    (h : ns.Pairwise (Denote r)) : ∀ n ∈ ns, ∃ v, n.extended? = some v := by
  obtain ⟨a, b, rest, rfl⟩ := Builtin.exists_cons_cons hmany
  obtain ⟨hfirst, _⟩ := List.pairwise_cons.1 h
  refine List.forall_mem_cons.2 ⟨?_, fun n hn => ?_⟩
  · obtain ⟨v, _, hv, _⟩ := hfirst b List.mem_cons_self
    exact ⟨v, hv⟩
  · obtain ⟨_, w, _, hw, _⟩ := hfirst n hn
    exact ⟨w, hw⟩

/-- The values of two or more numbers are equal in pairs exactly if they are all the same. -/
theorem pairwise_denote_eq_iff (hmany : 2 ≤ ns.length) :
    ns.Pairwise (Denote (· = ·)) ↔ ∃ v, ∀ n ∈ ns, n.extended? = some v := by
  constructor
  · intro h
    obtain ⟨a, rest, rfl⟩ := List.exists_cons_of_length_pos (Nat.lt_of_lt_of_le two_pos hmany)
    obtain ⟨v, hv⟩ := exists_extended?_of_pairwise hmany h a List.mem_cons_self
    refine ⟨v, List.forall_mem_cons.2 ⟨hv, fun n hn => ?_⟩⟩
    obtain ⟨v', _, hv', hn, rfl⟩ := (List.pairwise_cons.1 h).1 n hn
    exact hn.trans (hv'.symm.trans hv)
  · rintro ⟨v, hv⟩
    exact List.pairwise_of_forall_mem_list fun a ha b hb => ⟨v, v, hv a ha, hv b hb, rfl⟩

end Number

namespace Builtin

variable {arguments : List Datum} {holds : Number → Number → Bool}

theorem length_numbers (hnumbers : ∀ x ∈ arguments, isStranger x = false) :
    (numbers arguments).length = arguments.length := by
  refine List.filterMap_length_eq_length.2 fun x hx => ?_
  exact Option.isNone_eq_false_iff.1 (hnumbers x hx)

/-- The answer to a comparison whose test is a transitive relation between values. -/
theorem run_iff_pairwise {b : Builtin} {r : EReal → EReal → Prop} [Trans r r r]
    (hb : neighbourTest? b = some holds)
    (hholds : ∀ m n : Number, ¬m.RoundedNextTo n → (holds m n = true ↔ m.Denote r n))
    (hnumbers : ∀ x ∈ arguments, isStranger x = false)
    (hkeeps : Number.KeepsIntegers (numbers arguments)) (i : Interpreter) :
    ∃ answer, (b.run arguments).runFrom i = (.ok (.bool answer), i) ∧
      (answer = true ↔ (numbers arguments).Pairwise (Number.Denote r)) := by
  refine ⟨_, run_comparison hb hnumbers i, ?_⟩
  rw [decide_eq_true_iff, Number.isChain_iff_pairwise_denote hkeeps hholds]

/-- Not-a-number is related to nothing, so no comparison of it with other numbers holds. -/
theorem answer_of_nan {r : EReal → EReal → Prop} {answer : Bool}
    (hnumbers : ∀ x ∈ arguments, isStranger x = false) (hmany : 2 ≤ arguments.length)
    (hnan : .float64 .nan ∈ numbers arguments)
    (hanswer : answer = true ↔ (numbers arguments).Pairwise (Number.Denote r)) :
    answer = false := by
  by_contra htrue
  have hmany' : 2 ≤ (numbers arguments).length := hmany.trans_eq (length_numbers hnumbers).symm
  obtain ⟨v, hv⟩ := Number.exists_extended?_of_pairwise hmany'
    (hanswer.1 (Bool.not_eq_false _ ▸ htrue)) _ hnan
  cases hv

/-- A comparison of two or more numbers decides their order.  If there is no double among them next
to an integer of 64 bits that no double holds, `<` holds exactly if the values increase strictly
from every number to every later one, `<=` exactly if they do not decrease, and `=` exactly if all
values are the same; none of them holds with not-a-number.  The descending comparisons are, for any
numbers, the ascending ones of the numbers from the last to the first. -/
theorem comparison_decides_order (hnumbers : ∀ x ∈ arguments, isStranger x = false)
    (i : Interpreter) :
    (2 ≤ arguments.length → Number.KeepsIntegers (numbers arguments) →
      ∃ less lessEqual equal : Bool,
        (Builtin.less.run arguments).runFrom i = (.ok (.bool less), i) ∧
        (less = true ↔ (numbers arguments).Pairwise (Number.Denote (· < ·))) ∧
        (Builtin.lessEqual.run arguments).runFrom i = (.ok (.bool lessEqual), i) ∧
        (lessEqual = true ↔ (numbers arguments).Pairwise (Number.Denote (· ≤ ·))) ∧
        (Builtin.equal.run arguments).runFrom i = (.ok (.bool equal), i) ∧
        (equal = true ↔ ∃ v, ∀ n ∈ numbers arguments, n.extended? = some v) ∧
        (.float64 .nan ∈ numbers arguments →
          less = false ∧ lessEqual = false ∧ equal = false)) ∧
    (Builtin.greater.run arguments).runFrom i = (Builtin.less.run arguments.reverse).runFrom i ∧
    (Builtin.greaterEqual.run arguments).runFrom i =
      (Builtin.lessEqual.run arguments.reverse).runFrom i := by
  refine ⟨fun hmany hkeeps => ?_, run_exchanged rfl rfl hnumbers i,
    run_exchanged rfl rfl hnumbers i⟩
  have hmany' : 2 ≤ (numbers arguments).length := hmany.trans_eq (length_numbers hnumbers).symm
  obtain ⟨less, hless, hless'⟩ := run_iff_pairwise (b := .less) (r := (· < ·)) rfl
    (fun _ _ => Number.less_iff) hnumbers hkeeps i
  obtain ⟨lessEqual, hlessEqual, hlessEqual'⟩ :=
    run_iff_pairwise (b := .lessEqual) (r := (· ≤ ·)) rfl (fun _ _ => Number.lessEqual_iff) hnumbers
      hkeeps i
  obtain ⟨equal, hequal, hequal'⟩ := run_iff_pairwise (b := .equal) (r := (· = ·)) rfl
    (fun _ _ hexact => (Number.equal_iff hexact).trans Number.sameValue_iff_denote) hnumbers
    hkeeps i
  refine ⟨less, lessEqual, equal, hless, hless', hlessEqual, hlessEqual', hequal,
    hequal'.trans (Number.pairwise_denote_eq_iff hmany'), fun hnan => ⟨?_, ?_, ?_⟩⟩
  · exact answer_of_nan hnumbers hmany hnan hless'
  · exact answer_of_nan hnumbers hmany hnan hlessEqual'
  · exact answer_of_nan hnumbers hmany hnan hequal'

/-- Numbers of all kinds up to an infinity, from the least to the greatest and back. -/
theorem comparison_decides_order_ascending :
    let arguments : List Datum :=
      [.number (.bigint (-9223372036854775809)), .number (.int32 2),
        .number (.decimal ⟨25, -1, by decide⟩), .number (.int64 3),
        .number (.float64 (.infinite false))]
    (∀ x ∈ arguments, isStranger x = false) ∧ 2 ≤ arguments.length ∧
      Number.KeepsIntegers (numbers arguments) ∧
      (numbers arguments).Pairwise (Number.Denote (· < ·)) ∧
      (Builtin.greater.run arguments.reverse).runFrom .initial = (.ok (.bool true), .initial) := by
  intro arguments
  have hnumbers : ∀ x ∈ arguments, isStranger x = false := by decide
  have hkeeps : Number.KeepsIntegers (numbers arguments) := by
    intro x n _ hn
    obtain rfl : n = 3 := by simpa [numbers, arguments, Datum.number?] using hn
    exact Binary64.representable_of_natAbs_lt (by decide)
  have hrun : (Builtin.less.run arguments).runFrom .initial = (.ok (.bool true), .initial) := rfl
  obtain ⟨less, _, _, hless, hpairwise, _⟩ :=
    (comparison_decides_order hnumbers .initial).1 (by decide) hkeeps
  have htrue := congrArg Prod.fst (hless.symm.trans hrun)
  cases htrue
  have hnumbers' : ∀ x ∈ arguments.reverse, isStranger x = false := by decide
  have hback := (comparison_decides_order hnumbers' .initial).2.1
  rw [List.reverse_reverse] at hback
  exact ⟨hnumbers, by decide, hkeeps, hpairwise.1 rfl, hback.trans hrun⟩

end Builtin

end Reckoner
