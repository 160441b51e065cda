import Mathlib.Data.Nat.Digits.Defs
import Reckoner.Proofs.Datum.ReadBack
import Reckoner.Proofs.Program

/-!
# Integer literals

Digits with or without a minus sign are one item for the scanner, and what it makes of them is the
integer that they denote: a machine integer of 64 bits if it is in range, and an unbounded one
otherwise.  Nothing depends on how many digits there are or how many of them are leading zeros.

`Scan.Settles.finish_append` is about any item that is not finished yet: a text that starts with a
blank or a parenthesis ends it, and is then scanned as if nothing had come before.
-/

namespace Reckoner

namespace Text

/-- The integer that digits with or without a minus sign denote in base ten. -/
def denoted (negative : Bool) (digits : List Char) : ℤ :=
  let magnitude : ℕ := Nat.ofDigits 10 (digits.reverse.map digitValue)
  if negative then -magnitude else magnitude

theorem valueOfDigits_eq_ofDigits (digits : List Char) :
    valueOfDigits digits = Nat.ofDigits 10 (digits.reverse.map digitValue) := by
  induction digits using List.reverseRecOn with
  | nil => rfl
  | append_singleton digits c ih =>
    rw [List.reverse_append, List.reverse_singleton, List.singleton_append, List.map_cons,
      Nat.ofDigits_cons, ← ih, valueOfDigits, List.foldl_append, ← valueOfDigits, Nat.add_comm]
    rfl

theorem readInteger_denoted (negative : Bool) {digits : List Char} (hne : digits ≠ [])
    (hdigits : AllDigits digits) :
    readInteger (withSign negative digits) = some (denoted negative digits) := by
  rw [denoted, ← valueOfDigits_eq_ofDigits]
  cases negative with
  | true => exact readInteger_minus hne hdigits
  | false => exact readInteger_digits hne hdigits

end Text

namespace Token

variable {source : String} {s : Scan} {before tokens : List Token}

/-- A text that starts with a blank or a parenthesis, or is empty, finishes the item before it and
is scanned as if nothing had come before. -/
theorem Scan.Settles.finish_append (h : s.Settles before) {rest : String}
    (hbreak : ∀ c ∈ rest.toList.head?, endsSymbol c = true)
    (hrest : scan source rest = .ok tokens) :
    ∃ own, (rest.toList.foldl (Scan.step source) s).finish source = .ok (before.reverse ++ own) ∧
      List.Forall₂ Token.Same own tokens := by
  rw [scan] at hrest
  cases hchars : rest.toList with
  | nil =>
    rw [hchars] at hrest
    cases hrest
    refine ⟨[], ?_, .nil⟩
    rw [List.foldl_nil, h.finish, List.append_nil]
  | cons c chars =>
    rw [hchars] at hbreak hrest
    obtain ⟨t, ht, hstep⟩ := h.step source (hbreak c rfl)
    have hstart : Scan.At {} .between [] := ⟨rfl, rfl⟩
    have hfollows : (Scan.advance {} c).Follows before t := by
      refine ⟨ht.1.trans (hstart.advance c).1.symm, [], ht.2, ?_⟩
      rw [(hstart.advance c).2]
      exact .nil
    rw [List.foldl_cons, step_between hstart] at hrest
    rw [List.foldl_cons, hstep]
    exact ((hfollows.start c).run source chars).finish source hrest

/-- Characters that are an integer make a machine integer if it is in range. -/
theorem numberAtom_of_readInteger {chars : List Char} {n : ℤ}
    (h : Text.readInteger chars = some n) :
    ∃ number, numberAtom chars = .number number ∧
      (-2 ^ 63 ≤ n ∧ n < 2 ^ 63 → ∃ m : Int64, number = .int64 m ∧ m.toInt = n) ∧
      (¬(-2 ^ 63 ≤ n ∧ n < 2 ^ 63) → number = .bigint n) := by
  have hrange : FitsInt64 n ↔ -2 ^ 63 ≤ n ∧ n < 2 ^ 63 := by
    unfold FitsInt64
    omega
  rw [numberAtom, h, ← hrange]
  dsimp only
  by_cases hfits : FitsInt64 n
  · refine ⟨.int64 (Int64.ofInt n), if_pos hfits, fun _ => ⟨_, rfl, ?_⟩, absurd hfits⟩
    unfold FitsInt64 at hfits
    exact Int64.toInt_ofInt_of_le (by omega) (by omega)
  · exact ⟨.bigint n, if_neg hfits, fun h => absurd h hfits, fun _ => rfl⟩

/-- Integer literals are read exactly.  Digits with or without a minus sign, before the end of the
text, a blank or a parenthesis, are one token: the machine integer of 64 bits with the value that
they denote if that is in range, and the unbounded integer with that value otherwise.  The tokens of
the rest of the text follow, up to positions. -/
theorem scan_integer_literal (source : String) (negative : Bool) {digits : List Char}
    (hne : digits ≠ []) (hdigits : ∀ c ∈ digits, c.isDigit = true) {rest : String}
    (hbreak : ∀ c ∈ rest.toList.head?, c ∈ [' ', '\t', '\r', '\n', '(', ')'])
    (hrest : scan source rest = .ok tokens) :
    let n := Text.denoted negative digits
    ∃ number own,
      scan source (String.ofList (Text.withSign negative digits) ++ rest) =
        .ok (.atom (.number number) :: own) ∧
      (-2 ^ 63 ≤ n ∧ n < 2 ^ 63 → ∃ m : Int64, number = .int64 m ∧ m.toInt = n) ∧
      (¬(-2 ^ 63 ≤ n ∧ n < 2 ^ 63) → number = .bigint n) ∧
      List.Forall₂ Token.Same own tokens := by
  intro n
  obtain ⟨number, hatom, hrange, hbeyond⟩ :=
    numberAtom_of_readInteger (Text.readInteger_denoted negative hne hdigits)
  have hnumber : (List.foldl (Scan.step source) {} (Text.withSign negative digits)).At
      (.number (Text.withSign negative digits).reverse) [] := by
    have hchars := numberChars_withSign negative hne hdigits
    have hscan := scan_number source (s := {}) hchars ⟨rfl, rfl⟩
    rwa [List.reverse_reverse] at hscan
  have hbreak' : ∀ c ∈ rest.toList.head?, endsSymbol c = true := by
    intro c hc
    have hends : [' ', '\t', '\r', '\n', '(', ')'].all endsSymbol = true := by decide
    exact List.all_eq_true.1 hends c (hbreak c hc)
  obtain ⟨own, hown, hsame⟩ := (Scan.Settles.number hnumber).finish_append hbreak' hrest
  refine ⟨number, own, ?_, hrange, hbeyond, hsame⟩
  rw [scan, String.toList_append, String.toList_ofList, List.foldl_append, hown,
    List.reverse_reverse, hatom]
  rfl

/-- Two to the power of 63 with leading zeros, before a list: with a minus sign it is the least
machine integer, and without one it is beyond the greatest. -/
theorem scan_integer_literal_least :
    let digits : List Char := "009223372036854775808".toList
    let tokens : List Token := [.opening ⟨"t", 1, 1⟩, .atom (.symbol "a"), .closing]
    (digits ≠ [] ∧ digits.all Char.isDigit = true ∧ scan "t" "(a)" = .ok tokens) ∧
      (∃ m own, scan "t" (String.ofList (Text.withSign true digits) ++ "(a)") =
          .ok (.atom (.number (.int64 m)) :: own) ∧ m.toInt = -2 ^ 63 ∧
        List.Forall₂ Token.Same own tokens) ∧
      ∃ own, scan "t" (String.ofList (Text.withSign false digits) ++ "(a)") =
          .ok (.atom (.number (.bigint (2 ^ 63))) :: own) ∧
        List.Forall₂ Token.Same own tokens := by
  intro digits tokens
  have hne : digits ≠ [] := by decide
  have hall : digits.all Char.isDigit = true := by decide
  have hrest : scan "t" "(a)" = .ok tokens := by rfl
  have hbreak : ∀ c ∈ "(a)".toList.head?, c ∈ [' ', '\t', '\r', '\n', '(', ')'] := by
    intro c hc
    obtain rfl : '(' = c := Option.some.inj hc
    decide
  have hleast : Text.denoted true digits = -2 ^ 63 := by rfl
  have hbeyond : Text.denoted false digits = 2 ^ 63 := by rfl
  refine ⟨⟨hne, hall, hrest⟩, ?_, ?_⟩
  · obtain ⟨number, own, hscan, hrange, _, hsame⟩ :=
      scan_integer_literal "t" true hne (List.all_eq_true.1 hall) hbreak hrest
    obtain ⟨m, rfl, hm⟩ := hrange (by rw [hleast]; decide)
    exact ⟨m, own, hscan, hm.trans hleast, hsame⟩
  · obtain ⟨number, own, hscan, _, hnumber, hsame⟩ :=
      scan_integer_literal "t" false hne (List.all_eq_true.1 hall) hbreak hrest
    obtain rfl := hnumber (by rw [hbeyond]; decide)
    rw [hbeyond] at hscan
    exact ⟨own, hscan, hsame⟩

end Token

end Reckoner
