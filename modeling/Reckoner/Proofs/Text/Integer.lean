import Mathlib.Data.List.TakeWhile
import Mathlib.Tactic
import Reckoner.Text.Integer

/-!
# Digits and the integers they write

`AllDigits` is the class of texts that the numerals are made of.  The lemmas say which characters
such a text cannot hold, how its value splits, and that an integer reads back:
`readInteger_ofInteger`.
-/

namespace Reckoner.Text

/-- Every character is an ASCII digit. -/
def AllDigits (text : List Char) : Prop := ∀ c ∈ text, c.isDigit = true

theorem AllDigits.append {ds es : List Char} (hd : AllDigits ds) (he : AllDigits es) :
    AllDigits (ds ++ es) := by
  intro c hc
  rcases List.mem_append.1 hc with h | h
  · exact hd c h
  · exact he c h

theorem AllDigits.of_cons {c : Char} {ds : List Char} (h : AllDigits (c :: ds)) :
    c.isDigit = true ∧ AllDigits ds :=
  ⟨h c List.mem_cons_self, fun x hx => h x (List.mem_cons_of_mem c hx)⟩

theorem allDigits_cons {c : Char} {ds : List Char} (hc : c.isDigit = true) (hds : AllDigits ds) :
    AllDigits (c :: ds) := by
  intro x hx
  rcases List.mem_cons.1 hx with rfl | hx
  · exact hc
  · exact hds x hx

theorem allDigits_nil : AllDigits [] := by
  intro c hc
  cases hc

theorem allDigits_zeros (n : ℕ) : AllDigits (List.replicate n '0') := by
  intro c hc
  rw [List.eq_of_mem_replicate hc]
  rfl

theorem allDigits_repr (n : ℕ) : AllDigits (Nat.repr n).toList := by
  intro c hc
  rw [Nat.toList_repr] at hc
  exact Nat.isDigit_of_mem_toDigits (by decide) (by decide) hc

theorem repr_toList_ne_nil (n : ℕ) : (Nat.repr n).toList ≠ [] := by
  rw [Nat.toList_repr]
  exact Nat.toDigits_ne_nil

theorem ne_of_isDigit {c d : Char} (hc : c.isDigit = true) (hd : d.isDigit = false) : c ≠ d := by
  rintro rfl
  rw [hc] at hd
  cases hd

/-- Digits with a sign that is written only when it is a minus. -/
def withSign (negative : Bool) (digits : List Char) : List Char :=
  if negative then '-' :: digits else digits

theorem withSign_append (negative : Bool) (ds es : List Char) :
    withSign negative ds ++ es = withSign negative (ds ++ es) := by
  cases negative <;> rfl

theorem mem_withSign {negative : Bool} {ds : List Char} {c : Char} (h : c ∈ withSign negative ds) :
    c = '-' ∨ c ∈ ds := by
  cases negative with
  | false => exact Or.inr h
  | true => exact List.mem_cons.1 h

/-! ## Values -/

theorem valueOfDigits_append (ds es : List Char) :
    valueOfDigits (ds ++ es) = 10 ^ es.length * valueOfDigits ds + valueOfDigits es := by
  have happend := Nat.ofDigitChars_append (b := 10) (l := ds) (m := es) 0
  rw [Nat.ofDigitChars_eq_ofDigitChars_zero (l := es)] at happend
  exact happend

theorem valueOfDigits_zeros (n : ℕ) : valueOfDigits (List.replicate n '0') = 0 :=
  Nat.ofDigitChars_replicate_zero (b := 10)

theorem valueOfDigits_zeros_append (n : ℕ) (ds : List Char) :
    valueOfDigits (List.replicate n '0' ++ ds) = valueOfDigits ds := by
  rw [valueOfDigits_append, valueOfDigits_zeros, Nat.mul_zero, Nat.zero_add]

theorem valueOfDigits_append_zeros (n : ℕ) (ds : List Char) :
    valueOfDigits (ds ++ List.replicate n '0') = valueOfDigits ds * 10 ^ n := by
  rw [valueOfDigits_append, valueOfDigits_zeros, List.length_replicate, Nat.add_zero, Nat.mul_comm]

theorem valueOfDigits_repr (n : ℕ) : valueOfDigits (Nat.repr n).toList = n := by
  rw [Nat.toList_repr]
  exact Nat.ofDigitChars_ten_toDigits

/-! ## Reading -/

theorem readNatural_digits {ds : List Char} (hne : ds ≠ []) (hds : AllDigits ds) :
    readNatural ds = some (valueOfDigits ds) := by
  have hempty : ds.isEmpty = false := by simpa using hne
  have hall : ds.all Char.isDigit = true := List.all_eq_true.2 hds
  simp [readNatural, hempty, hall]

theorem readInteger_digits {ds : List Char} (hne : ds ≠ []) (hds : AllDigits ds) :
    readInteger ds = some (valueOfDigits ds : ℤ) := by
  unfold readInteger
  split
  · exact absurd hds.of_cons.1 (by decide)
  · exact absurd hds.of_cons.1 (by decide)
  · rw [readNatural_digits hne hds]
    rfl

theorem readInteger_minus {ds : List Char} (hne : ds ≠ []) (hds : AllDigits ds) :
    readInteger ('-' :: ds) = some (-(valueOfDigits ds : ℤ)) := by
  simp [readInteger, readNatural_digits hne hds]

theorem readInteger_withSign {n : ℤ} {ds : List Char} (hne : ds ≠ []) (hds : AllDigits ds)
    (hvalue : valueOfDigits ds = n.natAbs) : readInteger (withSign (n < 0) ds) = some n := by
  by_cases hneg : n < 0
  · rw [withSign, if_pos (decide_eq_true hneg), readInteger_minus hne hds, hvalue]
    exact congrArg some (by omega)
  · rw [withSign, if_neg (by simpa using hneg), readInteger_digits hne hds, hvalue]
    exact congrArg some (by omega)

theorem readNatural_eq_none {ds : List Char} {c : Char} (hmem : c ∈ ds) (hc : c.isDigit = false) :
    readNatural ds = none := by
  have hall : ¬ds.all Char.isDigit = true := by
    intro hall
    rw [List.all_eq_true.1 hall c hmem] at hc
    cases hc
  rw [readNatural, if_neg hall, ite_self]

/-- A character that is neither a digit nor a sign keeps a text from being an integer. -/
theorem readInteger_eq_none {text : List Char} {c : Char} (hmem : c ∈ text)
    (hc : c.isDigit = false) (hminus : c ≠ '-') (hplus : c ≠ '+') : readInteger text = none := by
  unfold readInteger
  split
  · rw [readNatural_eq_none ((List.mem_cons.1 hmem).resolve_left hminus) hc]
    rfl
  · rw [readNatural_eq_none ((List.mem_cons.1 hmem).resolve_left hplus) hc]
    rfl
  · rw [readNatural_eq_none hmem hc]
    rfl

theorem toList_ofInteger (n : ℤ) :
    (ofInteger n).toList = withSign (n < 0) (Nat.repr n.natAbs).toList := by
  by_cases hneg : n < 0
  · rw [ofInteger, if_pos hneg, withSign, if_pos (decide_eq_true hneg), String.toList_append]
    rfl
  · rw [ofInteger, if_neg hneg, withSign, if_neg (by simpa using hneg)]

theorem mem_ofInteger {n : ℤ} {c : Char} (h : c ∈ (ofInteger n).toList) :
    c = '-' ∨ c.isDigit = true := by
  rw [toList_ofInteger] at h
  rcases mem_withSign h with rfl | h
  · exact .inl rfl
  · exact .inr (allDigits_repr _ c h)

/-- An integer reads back from its text. -/
theorem readInteger_ofInteger (n : ℤ) : readInteger (ofInteger n).toList = some n := by
  rw [toList_ofInteger]
  exact readInteger_withSign (repr_toList_ne_nil _) (allDigits_repr _) (valueOfDigits_repr _)

end Reckoner.Text
