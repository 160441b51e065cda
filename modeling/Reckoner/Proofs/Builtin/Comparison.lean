import Reckoner.Builtin.Run
import Reckoner.Proofs.Number.Equality

/-!
# Comparison of many arguments

A comparison of many arguments looks at neighbours only: `related_iff_isChain`.  For equality this
says something about every pair, because equal numbers have one meeting point and that is passed
along the chain.
-/

namespace Reckoner.Builtin

/-- A comparison holds when it holds between all neighbours. -/
theorem related_iff_isChain (relation : Operand → Operand → Except NumberError Bool)
    (arguments : List Datum) :
    related relation arguments = .ok true ↔
      arguments.IsChain fun x y => relation x.operand y.operand = .ok true := by
  induction arguments with
  | nil => simp [related, pure, Except.pure]
  | cons x rest ih =>
    cases rest with
    | nil => simp [related, pure, Except.pure]
    | cons y rest =>
      rw [related, List.isChain_cons_cons, ← ih]
      cases relation x.operand y.operand with
      | error e => simp [bind, Except.bind]
      | ok holds => cases holds <;> simp [bind, Except.bind, pure, Except.pure]

theorem equal_operand_iff (x y : Datum) :
    Operand.equal x.operand y.operand = .ok true ↔
      ∃ m n, x.number? = some m ∧ y.number? = some n ∧ m.equal n = true := by
  simp only [Datum.operand]
  cases x.number? with
  | none => simp [Operand.equal, Operand.binary, Operand.accept]
  | some m =>
    cases y.number? with
    | none => simp [Operand.equal, Operand.binary, Operand.accept]
    | some n => simp [Operand.equal]

/-- Both values are numbers, in some relation. -/
def OnNumbers (relation : Number → Number → Prop) (x y : Datum) : Prop :=
  ∃ m n, x.number? = some m ∧ y.number? = some n ∧ relation m n

instance {relation : Number → Number → Prop} [Trans relation relation relation] :
    Trans (OnNumbers relation) (OnNumbers relation) (OnNumbers relation) where
  trans := by
    intro x y z hxy hyz
    obtain ⟨m, n, hx, hy, hmn⟩ := hxy
    obtain ⟨n', k, hy', hz, hnk⟩ := hyz
    obtain rfl : n = n' := Option.some.inj (hy.symm.trans hy')
    exact ⟨m, k, hx, hz, Trans.trans hmn hnk⟩

theorem OnNumbers.imp {relation relation' : Number → Number → Prop}
    (himp : ∀ m n, relation m n → relation' m n) {x y : Datum} (h : OnNumbers relation x y) :
    OnNumbers relation' x y := by
  obtain ⟨m, n, hx, hy, hmn⟩ := h
  exact ⟨m, n, hx, hy, himp m n hmn⟩

/-- The equality of many arguments holds when neighbours are equal numbers. -/
theorem compute?_equal_iff (arguments : List Datum) :
    compute? .equal arguments = some (.ok (.bool true)) ↔
      arguments.IsChain (OnNumbers fun m n => m.equal n = true) := by
  have hanswer : ofBool (related Operand.equal arguments) = .ok (.bool true) ↔
      related Operand.equal arguments = .ok true := by
    cases related Operand.equal arguments <;> simp [ofBool]
  rw [compute?, Option.some.injEq, hanswer, related_iff_isChain]
  exact List.IsChain.iff fun x y => equal_operand_iff x y

/-! ## Every pair of a chain of equal numbers -/

instance : Trans Number.Meets Number.Meets Number.Meets := ⟨Number.Meets.trans⟩

instance : Trans Number.SameValue Number.SameValue Number.SameValue := ⟨Number.SameValue.trans⟩

/-- All arguments of a chain of equal numbers have one meeting point. -/
theorem pairwise_meets {arguments : List Datum}
    (h : arguments.IsChain (OnNumbers fun m n => m.equal n = true)) :
    arguments.Pairwise (OnNumbers Number.Meets) :=
  List.IsChain.pairwise (h.imp fun _ _ => OnNumbers.imp fun _ _ => Number.equal_meets)

/-- Without an integer that would be rounded next to a double, all arguments of a chain of equal
numbers have one value. -/
theorem pairwise_sameValue {arguments : List Datum}
    (h : arguments.IsChain (OnNumbers fun m n => m.equal n = true))
    (hexact : ∀ x ∈ arguments, ∀ y ∈ arguments, ¬OnNumbers Number.RoundedNextTo x y) :
    arguments.Pairwise (OnNumbers Number.SameValue) := by
  apply List.IsChain.pairwise
  refine h.imp_of_mem_imp ?_
  intro x y hx hy hxy
  obtain ⟨m, n, hm, hn, hequal⟩ := hxy
  refine ⟨m, n, hm, hn, (Number.equal_iff ?_).1 hequal⟩
  intro hrounded
  exact hexact x hx y hy ⟨m, n, hm, hn, hrounded⟩

/-- Equality is transitive up to the rounding of an integer of 64 bits next to a double.  Two
numbers that are both equal to a third are equal exactly if they have the same value or are such a
pair themselves, and they always are when neither of them was rounded.  The same holds for every
pair of arguments when the equality of many arguments holds. -/
theorem equal_transitive :
    (∀ a b c : Number, a.equal b = true → b.equal c = true →
      (a.equal c = true ↔ a.SameValue c ∨ a.MeetAsDoubles c) ∧
        (¬a.RoundedNextTo b → ¬b.RoundedNextTo c → a.equal c = true)) ∧
    ∀ arguments : List Datum, compute? .equal arguments = some (.ok (.bool true)) →
      arguments.Pairwise
          (OnNumbers fun m n => m.equal n = true ↔ m.SameValue n ∨ m.MeetAsDoubles n) ∧
        ((∀ x ∈ arguments, ∀ y ∈ arguments, ¬OnNumbers Number.RoundedNextTo x y) →
          arguments.Pairwise (OnNumbers fun m n => m.equal n = true)) := by
  constructor
  · intro a b c hab hbc
    refine ⟨Number.equal_iff_of_meets ((Number.equal_meets hab).trans (Number.equal_meets hbc)), ?_⟩
    intro hexactLeft hexactRight
    have hleft := (Number.equal_iff hexactLeft).1 hab
    have hright := (Number.equal_iff hexactRight).1 hbc
    exact (hleft.trans hright).equal
  · intro arguments h
    rw [compute?_equal_iff] at h
    refine ⟨(pairwise_meets h).imp fun hmeets =>
      hmeets.imp fun m n => Number.equal_iff_of_meets, ?_⟩
    intro hexact
    exact (pairwise_sameValue h hexact).imp fun hsame => hsame.imp fun m n => Number.SameValue.equal

/-- Three as an integer, as a decimal with a fraction and as a double. -/
theorem equal_transitive_three :
    (Number.int64 3).equal (.decimal ⟨30, -1, by decide⟩) = true ∧
      (Number.decimal ⟨30, -1, by decide⟩).equal
        (.float64 (.finite false 6755399441055744 (-51) (by decide))) = true ∧
      (Number.int64 3).equal (.float64 (.finite false 6755399441055744 (-51) (by decide))) =
        true := by
  refine ⟨rfl, rfl, (equal_transitive.1 _ (.decimal ⟨30, -1, by decide⟩) _ rfl rfl).2 ?_ ?_⟩
  · intro hrounded
    obtain ⟨n, x, _, ⟨_, hx⟩ | ⟨hx, _⟩⟩ := hrounded <;> cases hx
  · intro hrounded
    obtain ⟨n, x, _, ⟨hn, _⟩ | ⟨hx, _⟩⟩ := hrounded
    · cases hn
    · cases hx

/-- Two integers on both sides of a rounding are equal to the double between them, and not to each
other. -/
theorem not_equal_transitive :
    (Number.int64 9007199254740993).equal
        (.float64 (.finite false Binary64.topBit 1 (by decide))) = true ∧
      (Number.float64 (.finite false Binary64.topBit 1 (by decide))).equal
        (.int64 9007199254740992) = true ∧
      (Number.int64 9007199254740993).equal (.int64 9007199254740992) = false ∧
      compute? .equal
          [.number (.int64 9007199254740993),
            .number (.float64 (.finite false Binary64.topBit 1 (by decide))),
            .number (.int64 9007199254740992)] =
        some (.ok (.bool true)) :=
  ⟨rfl, rfl, rfl, rfl⟩

end Reckoner.Builtin
