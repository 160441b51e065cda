import Reckoner.Binary64.Literal
import Reckoner.Binary64.Text
import Reckoner.Proofs.Binary64.Shortest
import Reckoner.Proofs.Text.Integer

/-!
# Doubles read back from their text

A `Numeral` is a decimal as it is written: a sign, digits, a fraction and an exponent.  It stands
between the two sides of the round trip.

* Reading.  `scanLiteral_text` says what the reader makes of the text of a numeral, and `read_text`
  which double that is.
* Writing.  `format_eq_text` says that the text of a finite double is the text of a numeral with the
  value of its shortest digits.
-/

namespace Reckoner.Binary64

open Reckoner.Text

/-- A decimal as it is written.  The point is written with a fraction only. -/
structure Numeral where
  negative : Bool
  whole : List Char
  fraction : List Char
  exponent : Option ℤ
  whole_ne_nil : whole ≠ []
  whole_digits : AllDigits whole
  fraction_digits : AllDigits fraction

namespace Numeral

/-- The point and the digits after it. -/
def fractionText (n : Numeral) : List Char :=
  if n.fraction = [] then [] else '.' :: n.fraction

/-- The exponent with its mark. -/
def exponentPart (n : Numeral) : List Char :=
  match n.exponent with
  | none => []
  | some k => (exponentText k).toList

/-- The text after the sign. -/
def unsigned (n : Numeral) : List Char := n.whole ++ (n.fractionText ++ n.exponentPart)

/-- The text of a numeral. -/
def text (n : Numeral) : List Char := withSign n.negative n.unsigned

/-- The magnitude of a numeral. -/
def magnitude (n : Numeral) : ℚ :=
  valueOfDigits (n.whole ++ n.fraction) * 10 ^ (n.exponent.getD 0 - n.fraction.length)

/-- What the reader makes of the text of a numeral. -/
def literal (n : Numeral) : Literal :=
  ⟨n.negative, false, valueOfDigits (n.whole ++ n.fraction), n.fraction.length, n.exponent.getD 0⟩

end Numeral

/-! ## Exponents -/

/-- The digits of an exponent, of which there are at least two. -/
def exponentDigits (k : ℤ) : List Char :=
  if (Nat.repr k.natAbs).length < 2 then '0' :: (Nat.repr k.natAbs).toList
  else (Nat.repr k.natAbs).toList

theorem toList_exponentText (k : ℤ) :
    (exponentText k).toList = 'e' :: (if k < 0 then '-' else '+') :: exponentDigits k := by
  simp only [exponentText, exponentDigits]
  split_ifs <;> simp only [String.toList_append] <;> rfl

theorem allDigits_exponentDigits (k : ℤ) : AllDigits (exponentDigits k) := by
  unfold exponentDigits
  split
  · exact allDigits_cons (by decide) (allDigits_repr _)
  · exact allDigits_repr _

theorem exponentDigits_ne_nil (k : ℤ) : exponentDigits k ≠ [] := by
  unfold exponentDigits
  split
  · exact List.cons_ne_nil _ _
  · exact repr_toList_ne_nil _

theorem valueOfDigits_exponentDigits (k : ℤ) : valueOfDigits (exponentDigits k) = k.natAbs := by
  unfold exponentDigits
  split
  · exact (valueOfDigits_zeros_append 1 _).trans (valueOfDigits_repr _)
  · exact valueOfDigits_repr _

theorem scanExponent_exponentText (k : ℤ) :
    scanExponent ((if k < 0 then '-' else '+') :: exponentDigits k) = some (k, []) := by
  have hsign : takeSign ((if k < 0 then '-' else '+') :: exponentDigits k) =
      (decide (k < 0), exponentDigits k) := by
    split <;> simp_all [takeSign]
  have hdigits := allDigits_exponentDigits k
  have hall : (exponentDigits k).takeWhile (fun c => c.isDigit || c == '_') = exponentDigits k := by
    rw [List.takeWhile_eq_self_iff]
    intro c hc
    simp [hdigits c hc]
  have hfilter : (exponentDigits k).filter Char.isDigit = exponentDigits k :=
    List.filter_eq_self.2 hdigits
  have hvalue := valueOfDigits_exponentDigits k
  have hne := exponentDigits_ne_nil k
  simp only [scanExponent, hsign, hall, hfilter, hvalue, List.drop_length]
  cases hlist : exponentDigits k with
  | nil => exact absurd hlist hne
  | cons c rest =>
    rw [hlist] at hdigits
    simp only [hdigits.of_cons.1, if_true, Option.some.injEq, Prod.mk.injEq, and_true,
      decide_eq_true_eq]
    split <;> omega

/-! ## The mantissa -/

theorem literalDigit_of_isDigit {c : Char} (hc : c.isDigit = true) :
    literalDigit false c = some (digitValue c) := by
  simp [literalDigit, hc]

/-- Digits are taken in one after another. -/
theorem scanMantissa_digits (scan : MantissaScan) {ds : List Char} (hds : AllDigits ds)
    (rest : List Char) :
    scanMantissa false scan (ds ++ rest) =
      scanMantissa false
        { scan with
          value := ds.foldl (fun value c => 10 * value + digitValue c) scan.value
          digits := scan.digits + ds.length
          fraction := if scan.point then scan.fraction + ds.length else scan.fraction } rest := by
  induction ds generalizing scan with
  | nil => simp
  | cons c ds ih =>
    obtain ⟨hc, hds⟩ := hds.of_cons
    have hunderscore : c ≠ '_' := ne_of_isDigit hc (by decide)
    have hpoint : c ≠ '.' := ne_of_isDigit hc (by decide)
    rw [List.cons_append, scanMantissa, if_neg hunderscore, if_neg (fun h => hpoint h.1),
      literalDigit_of_isDigit hc]
    simp only [ih _ hds, List.foldl_cons, List.length_cons]
    congr 2
    · omega
    · split <;> omega

/-- The scan stops at the end and at the mark of an exponent. -/
theorem scanMantissa_exponentPart (scan : MantissaScan) (n : Numeral) :
    scanMantissa false scan n.exponentPart = (scan, n.exponentPart) := by
  unfold Numeral.exponentPart
  split
  · rfl
  · rw [toList_exponentText, scanMantissa, if_neg (by decide), if_neg (fun h => by cases h.1)]
    rfl

theorem scanMantissa_unsigned (n : Numeral) :
    ∃ point, scanMantissa false {} n.unsigned =
      (⟨valueOfDigits (n.whole ++ n.fraction), n.whole.length + n.fraction.length,
        n.fraction.length, point⟩, n.exponentPart) := by
  rw [Numeral.unsigned, scanMantissa_digits _ n.whole_digits]
  by_cases hnone : n.fraction = []
  · refine ⟨false, ?_⟩
    rw [Numeral.fractionText, if_pos hnone, List.nil_append, scanMantissa_exponentPart, hnone]
    simp [valueOfDigits]
  · refine ⟨true, ?_⟩
    rw [Numeral.fractionText, if_neg hnone, List.cons_append, scanMantissa, if_neg (by decide),
      if_pos ⟨rfl, rfl⟩, scanMantissa_digits _ n.fraction_digits, scanMantissa_exponentPart]
    simp [valueOfDigits, List.foldl_append]

/-! ## The characters of a numeral -/

/-- The characters that numerals are made of. -/
def isNumeralChar (c : Char) : Bool := c.isDigit || c == '.' || c == 'e' || c == '-' || c == '+'

theorem isNumeralChar_of_isDigit {c : Char} (hc : c.isDigit = true) : isNumeralChar c = true := by
  simp [isNumeralChar, hc]

theorem isNumeralChar_exponentPart {n : Numeral} {c : Char} (hc : c ∈ n.exponentPart) :
    isNumeralChar c = true := by
  unfold Numeral.exponentPart at hc
  split at hc
  · cases hc
  · rw [toList_exponentText, List.mem_cons, List.mem_cons] at hc
    rcases hc with rfl | rfl | hc
    · decide
    · split <;> decide
    · exact isNumeralChar_of_isDigit (allDigits_exponentDigits _ c hc)

theorem isNumeralChar_unsigned {n : Numeral} {c : Char} (hc : c ∈ n.unsigned) :
    isNumeralChar c = true := by
  rw [Numeral.unsigned, List.mem_append, List.mem_append] at hc
  rcases hc with hc | hc | hc
  · exact isNumeralChar_of_isDigit (n.whole_digits c hc)
  · unfold Numeral.fractionText at hc
    split at hc
    · cases hc
    · rcases List.mem_cons.1 hc with rfl | hc
      · decide
      · exact isNumeralChar_of_isDigit (n.fraction_digits c hc)
  · exact isNumeralChar_exponentPart hc

theorem isNumeralChar_text {n : Numeral} {c : Char} (hc : c ∈ n.text) : isNumeralChar c = true := by
  rcases mem_withSign hc with rfl | hc
  · decide
  · exact isNumeralChar_unsigned hc

theorem toLower_of_isDigit {c : Char} (hc : c.isDigit = true) : c.toLower = c := by
  have hnine : c.val ≤ '9'.val := by
    simp only [Char.isDigit, Bool.and_eq_true, decide_eq_true_eq] at hc
    exact hc.2
  have hupper : ¬(c.val ≥ 'A'.val ∧ c.val ≤ 'Z'.val) := by
    intro h
    exact absurd (UInt32.le_trans h.1 hnine) (by decide)
  exact dif_neg hupper

theorem toLower_of_isNumeralChar {c : Char} (hc : isNumeralChar c = true) : c.toLower = c := by
  simp only [isNumeralChar, Bool.or_eq_true, beq_iff_eq] at hc
  rcases hc with (((hc | rfl) | rfl) | rfl) | rfl
  · exact toLower_of_isDigit hc
  all_goals decide

/-! ## Reading a numeral -/

theorem takeSign_text (n : Numeral) : takeSign n.text = (n.negative, n.unsigned) := by
  unfold Numeral.text
  cases n.negative with
  | true => rfl
  | false =>
    -- a numeral starts with a digit, which is no sign
    obtain ⟨c, ds, hwhole⟩ := List.exists_cons_of_ne_nil n.whole_ne_nil
    have hc : c.isDigit = true := n.whole_digits c (by rw [hwhole]; exact List.mem_cons_self)
    rw [withSign, if_neg Bool.false_ne_true, Numeral.unsigned, hwhole, List.cons_append]
    unfold takeSign
    split
    · rename_i heq
      exact absurd (List.cons.inj heq).1 (ne_of_isDigit hc (by decide))
    · rename_i heq
      exact absurd (List.cons.inj heq).1 (ne_of_isDigit hc (by decide))
    · rfl

theorem takeRadix_of_numeral {text : List Char} (h : ∀ c ∈ text, isNumeralChar c = true) :
    takeRadix text = (false, text) := by
  unfold takeRadix
  split
  · rename_i x next rest
    have hx : isNumeralChar x = true := h x (by simp)
    have hlower : x.toLower ≠ 'x' := by
      rw [toLower_of_isNumeralChar hx]
      rintro rfl
      cases hx
    rw [if_neg hlower]
  · rfl

theorem mem_of_mem_takeSign {text : List Char} {c : Char} (hc : c ∈ (takeSign text).2) :
    c ∈ text := by
  unfold takeSign at hc
  split at hc
  · exact List.mem_cons_of_mem _ hc
  · exact List.mem_cons_of_mem _ hc
  · exact hc

/-- Every word for a double has the letter `n`. -/
theorem readWord_eq_none {text : List Char} (h : ∀ c ∈ text, c.toLower ≠ 'n') :
    readWord text = none := by
  have hword {part : List Char} {word : String} (hpart : ∀ c ∈ part, c ∈ text)
      (hn : 'n' ∈ word.toList) : String.ofList (part.map Char.toLower) ≠ word := by
    rintro rfl
    rw [String.toList_ofList, List.mem_map] at hn
    obtain ⟨c, hc, hlower⟩ := hn
    exact h c (hpart c hc) hlower
  have hrest (c : Char) : c ∈ (takeSign text).2 → c ∈ text := mem_of_mem_takeSign
  simp only [readWord]
  rw [if_neg, if_neg (hword (fun _ hc => hc) (by decide))]
  rintro (hinf | hinf)
  · exact hword hrest (by decide) hinf
  · exact hword hrest (by decide) hinf

theorem pack_ne_nan (negative : Bool) (m : ℕ) (e : ℤ) : pack negative m e ≠ .nan := by
  unfold pack
  split_ifs <;> exact Binary64.noConfusion

theorem nearest_ne_nan (negative : Bool) (num den : ℕ) : nearest negative num den ≠ .nan := by
  unfold nearest
  split
  · exact Binary64.noConfusion
  · exact pack_ne_nan _ _ _

theorem value_ne_nan (literal : Literal) : literal.value ≠ .nan := by
  simp only [Literal.value, ofBinaryScale, ofDecimal, nearestScaled]
  split_ifs
  all_goals first
    | exact nearest_ne_nan _ _ _
    | exact Binary64.noConfusion

/-- What is read from a text without words is finite. -/
theorem isFinite_of_read {text : List Char} {x : Binary64} (h : ∀ c ∈ text, c.toLower ≠ 'n')
    (hread : read text = .ok x) : x.isFinite = true := by
  simp only [read, readWord_eq_none h] at hread
  split at hread
  · cases hread
  · rename_i literal _
    split at hread
    · cases hread
    · rename_i hinfinite
      cases hread
      cases hvalue : literal.value with
      | nan => exact absurd hvalue (value_ne_nan literal)
      | infinite negative => exact absurd hvalue (hinfinite negative)
      | finite => rfl

theorem scanLiteral_text (n : Numeral) : scanLiteral n.text = some n.literal := by
  have hunderscore : n.text.contains '_' = false := by
    rw [List.contains_eq_mem, decide_eq_false_iff_not]
    intro hmem
    cases isNumeralChar_text hmem
  obtain ⟨point, hscan⟩ := scanMantissa_unsigned n
  have hdigits : n.whole.length + n.fraction.length ≠ 0 := by
    have := List.length_pos_of_ne_nil n.whole_ne_nil
    omega
  simp only [scanLiteral, takeSign_text, takeRadix_of_numeral (fun c => isNumeralChar_unsigned),
    hscan, hunderscore, Bool.false_and, Bool.false_eq_true, if_false]
  rw [if_neg hdigits]
  unfold Numeral.literal Numeral.exponentPart
  cases n.exponent with
  | none => rfl
  | some k =>
    simp only [toList_exponentText, scanExponent_exponentText]
    rfl

/-- A numeral with the value of the shortest digits of a double is read as that double. -/
theorem read_text {n : Numeral} {m : ℕ} {e : ℤ} (canonical : Canonical m e)
    (hvalue : n.magnitude = (shortest m e).value) :
    read n.text = .ok (.finite n.negative m e canonical) := by
  have hdouble : n.literal.value = .finite n.negative m e canonical := by
    simp only [Literal.value, Numeral.literal, Bool.false_eq_true, if_false]
    rcases Nat.eq_zero_or_pos m with rfl | hm
    · obtain rfl := canonical.exponent_of_zero
      have hpow : (10 : ℚ) ^ (n.exponent.getD 0 - n.fraction.length) ≠ 0 := by positivity
      have hzero : valueOfDigits (n.whole ++ n.fraction) = 0 := by
        simpa [Numeral.magnitude, shortest, Scientific.value, hpow] using hvalue
      rw [ofDecimal, if_pos hzero]
      rfl
    · exact ofDecimal_shortest n.negative canonical hm hvalue
  have hword : readWord n.text = none := by
    apply readWord_eq_none
    intro c hc hn
    rw [toLower_of_isNumeralChar (isNumeralChar_text hc)] at hn
    subst hn
    cases isNumeralChar_text hc
  simp only [read, hword, scanLiteral_text, hdouble]

/-! ## Writing a numeral -/

theorem scientificText_eq_text (negative : Bool) {digits : List Char} (hne : digits ≠ [])
    (hdigits : AllDigits digits) (first : ℤ) :
    ∃ n : Numeral, n.negative = negative ∧ n.unsigned = (scientificText digits first).toList ∧
      n.magnitude = valueOfDigits digits * 10 ^ (first + 1 - digits.length) := by
  cases digits with
  | nil => exact absurd rfl hne
  | cons d rest =>
    obtain ⟨hd, hrest⟩ := hdigits.of_cons
    refine ⟨⟨negative, [d], rest, some first, List.cons_ne_nil _ _,
      allDigits_cons hd allDigits_nil, hrest⟩, rfl, ?_, ?_⟩
    · cases rest with
      | nil => simp [Numeral.unsigned, Numeral.fractionText, Numeral.exponentPart, scientificText]
      | cons second rest =>
        simp [Numeral.unsigned, Numeral.fractionText, Numeral.exponentPart, scientificText]
    · simp only [Numeral.magnitude, List.singleton_append, Option.getD_some, List.length_cons]
      congr 2
      push_cast
      ring

theorem positionalText_eq_text (negative : Bool) {digits : List Char} (hne : digits ≠ [])
    (hdigits : AllDigits digits) (first : ℤ) :
    ∃ n : Numeral, n.negative = negative ∧ n.unsigned = (positionalText digits first).toList ∧
      n.magnitude = valueOfDigits digits * 10 ^ (first + 1 - digits.length) := by
  have hlength := List.length_pos_of_ne_nil hne
  unfold positionalText
  split
  · -- a fraction only: zeros fill the places between the point and the first digit
    rename_i hneg
    refine ⟨⟨negative, ['0'], List.replicate (-first - 1).toNat '0' ++ digits, none,
      List.cons_ne_nil _ _, allDigits_zeros 1, (allDigits_zeros _).append hdigits⟩, rfl, ?_, ?_⟩
    · simp [Numeral.unsigned, Numeral.fractionText, Numeral.exponentPart, hne]
    · have hvalue : valueOfDigits (['0'] ++ (List.replicate (-first - 1).toNat '0' ++ digits)) =
          valueOfDigits digits :=
        (valueOfDigits_zeros_append 1 _).trans (valueOfDigits_zeros_append _ _)
      simp only [Numeral.magnitude, hvalue, Option.getD_none, List.length_append,
        List.length_replicate]
      congr 2
      omega
  simp only
  split
  · -- no fraction: zeros fill the places before the point
    rename_i hnonneg hshort
    refine ⟨⟨negative, digits ++ List.replicate (first.toNat + 1 - digits.length) '0', [], none,
      List.append_ne_nil_of_left_ne_nil hne _, hdigits.append (allDigits_zeros _), allDigits_nil⟩,
      rfl, ?_, ?_⟩
    · simp [Numeral.unsigned, Numeral.fractionText, Numeral.exponentPart]
    · have hexponent : first + 1 - (digits.length : ℤ) =
          (first.toNat + 1 - digits.length : ℕ) := by omega
      simp only [Numeral.magnitude, List.append_nil, valueOfDigits_append_zeros, Option.getD_none,
        List.length_nil, Nat.cast_zero, sub_zero, zpow_zero, mul_one, hexponent, zpow_natCast,
        Nat.cast_mul, Nat.cast_pow, Nat.cast_ofNat]
  · rename_i hnonneg hlong
    have hwhole : digits.take (first.toNat + 1) ≠ [] := by
      rw [Ne, List.take_eq_nil_iff]
      exact fun h => h.elim (by omega) hne
    have hfraction : digits.drop (first.toNat + 1) ≠ [] := by
      rw [Ne, List.drop_eq_nil_iff]
      omega
    refine ⟨⟨negative, digits.take (first.toNat + 1), digits.drop (first.toNat + 1), none, hwhole,
      fun c hc => hdigits c (List.mem_of_mem_take hc),
      fun c hc => hdigits c (List.mem_of_mem_drop hc)⟩, rfl, ?_, ?_⟩
    · simp [Numeral.unsigned, Numeral.fractionText, Numeral.exponentPart, hfraction]
    · simp only [Numeral.magnitude, List.take_append_drop, Option.getD_none, List.length_drop]
      congr 2
      omega

/-- The text of a finite double is a numeral with the value of its shortest digits. -/
theorem format_eq_text (layout : Layout) (negative : Bool) {m : ℕ} {e : ℤ}
    (canonical : Canonical m e) :
    ∃ n : Numeral, (format layout (.finite negative m e canonical)).toList = n.text ∧
      n.negative = negative ∧ n.magnitude = (shortest m e).value := by
  have htext {n : Numeral} {body : String} (hnegative : n.negative = negative)
      (hbody : n.unsigned = body.toList) :
      ((if negative then "-" else "") ++ body).toList = n.text := by
    rw [Numeral.text, hnegative, hbody, String.toList_append]
    cases negative <;> rfl
  simp only [format]
  split
  · rename_i hzero
    subst hzero
    refine ⟨⟨negative, ['0'], [], none, List.cons_ne_nil _ _, allDigits_zeros 1, allDigits_nil⟩,
      htext rfl rfl, rfl, ?_⟩
    simp [Numeral.magnitude, shortest, Scientific.value, valueOfDigits, digitValue]
  have hne := repr_toList_ne_nil (shortest m e).digits
  have hdigits := allDigits_repr (shortest m e).digits
  have hvalue : (valueOfDigits (Nat.repr (shortest m e).digits).toList : ℚ) *
      10 ^ ((shortest m e).exponent + (Nat.repr (shortest m e).digits).toList.length - 1 + 1 -
        (Nat.repr (shortest m e).digits).toList.length) = (shortest m e).value := by
    rw [valueOfDigits_repr, Scientific.value]
    congr 2
    ring
  split
  · obtain ⟨n, hnegative, hunsigned, hmagnitude⟩ :=
      scientificText_eq_text negative hne hdigits _
    exact ⟨n, htext hnegative hunsigned, hnegative, hmagnitude.trans hvalue⟩
  · obtain ⟨n, hnegative, hunsigned, hmagnitude⟩ :=
      positionalText_eq_text negative hne hdigits _
    exact ⟨n, htext hnegative hunsigned, hnegative, hmagnitude.trans hvalue⟩

end Reckoner.Binary64
