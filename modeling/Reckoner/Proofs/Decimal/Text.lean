import Reckoner.Decimal.Text
import Reckoner.Proofs.Text.Integer

/-!
# Decimals read back from the text that keeps their scale

`read_places` reads a text with a point: the digits without it are the coefficient and the digits
after it are the places.  `read_fixed` follows for the text that `fixed` writes.  A decimal with a
positive exponent is written without it, so it comes back with the exponent zero.
-/

namespace Reckoner.Decimal

open Reckoner.Text

/-! ## The digits on both sides of the point -/

theorem splitPlaces_append (magnitude places : ℕ) :
    (splitPlaces magnitude places).1 ++ (splitPlaces magnitude places).2 =
      List.replicate (places + 1 - (Nat.repr magnitude).toList.length) '0' ++
        (Nat.repr magnitude).toList := by
  simp only [splitPlaces, List.take_append_drop]

theorem length_splitPlaces (magnitude places : ℕ) :
    (splitPlaces magnitude places).1 ≠ [] ∧ (splitPlaces magnitude places).2.length = places := by
  simp only [splitPlaces]
  generalize (Nat.repr magnitude).toList = digits
  constructor
  · rw [Ne, ← List.length_eq_zero_iff]
    simp only [List.length_take, List.length_append, List.length_replicate]
    omega
  · simp only [List.length_drop, List.length_append, List.length_replicate]
    omega

theorem allDigits_splitPlaces (magnitude places : ℕ) :
    AllDigits ((splitPlaces magnitude places).1 ++ (splitPlaces magnitude places).2) := by
  rw [splitPlaces_append]
  exact (allDigits_zeros _).append (allDigits_repr _)

theorem valueOfDigits_splitPlaces (magnitude places : ℕ) :
    valueOfDigits ((splitPlaces magnitude places).1 ++ (splitPlaces magnitude places).2) =
      magnitude := by
  rw [splitPlaces_append, valueOfDigits_zeros_append, valueOfDigits_repr]

/-! ## Reading -/

theorem byteCount_digits {ds : List Char} (hds : AllDigits ds) : byteCount ds = ds.length := by
  have hsize {c : Char} (hc : c.isDigit = true) : c.utf8Size = 1 := by
    rw [Char.utf8Size_eq_one_iff]
    simp only [Char.isDigit, Bool.and_eq_true, decide_eq_true_eq] at hc
    exact UInt32.le_trans hc.2 (by decide)
  have hfold (total : ℕ) :
      ds.foldl (fun total c => total + c.utf8Size) total = total + ds.length := by
    induction ds generalizing total with
    | nil => rfl
    | cons c ds ih =>
      obtain ⟨hc, hds⟩ := hds.of_cons
      rw [List.foldl_cons, ih hds, hsize hc, List.length_cons]
      omega
  rw [byteCount, hfold, Nat.zero_add]

/-- A text without an exponent mark is all mantissa. -/
theorem splitExponent_of_forall {text : List Char} (h : ∀ c ∈ text, c ≠ 'e' ∧ c ≠ 'E') :
    splitExponent text = (text, none) := by
  have hpass : ∀ c ∈ text, (!(c == 'e' || c == 'E')) = true := by
    intro c hc
    simp [h c hc]
  simp only [splitExponent, List.takeWhile_eq_self_iff.2 hpass, List.dropWhile_eq_nil_iff.2 hpass]

variable {n : ℤ} {whole fraction point : List Char}

/-- A sign and digits, with a point if there are places, as the reader of mantissas sees them. -/
theorem readMantissa_digits (hwhole : whole ≠ []) (hdigits : AllDigits (whole ++ fraction))
    (hvalue : valueOfDigits (whole ++ fraction) = n.natAbs)
    (hpoint : point = '.' :: fraction ∨ point = [] ∧ fraction = []) :
    readMantissa (withSign (n < 0) whole ++ point) = .ok (n, fraction.length) := by
  have hne {c : Char} (hc : c ∈ whole ++ fraction) : c ≠ '.' :=
    ne_of_isDigit (hdigits c hc) (by decide)
  have hbefore : ∀ c ∈ withSign (n < 0) whole, (c != '.') = true := by
    intro c hc
    rw [bne_iff_ne]
    rcases mem_withSign hc with rfl | hc
    · decide
    · exact hne (List.mem_append_left _ hc)
  have htake : (withSign (n < 0) whole ++ point).takeWhile (· != '.') = withSign (n < 0) whole := by
    rw [List.takeWhile_append_of_pos hbefore]
    rcases hpoint with rfl | ⟨rfl, _⟩ <;> simp
  have hdrop : ((withSign (n < 0) whole ++ point).dropWhile (· != '.')).drop 1 = fraction := by
    rw [List.dropWhile_append_of_pos hbefore]
    rcases hpoint with rfl | ⟨rfl, rfl⟩ <;> simp
  have hsecond : fraction.contains '.' = false := by
    rw [List.contains_eq_mem, decide_eq_false_iff_not]
    exact fun hmem => hne (List.mem_append_right _ hmem) rfl
  have hinteger : readInteger (withSign (n < 0) whole ++ fraction) = some n := by
    rw [withSign_append]
    exact readInteger_withSign (List.append_ne_nil_of_left_ne_nil hwhole _) hdigits hvalue
  have hbytes : byteCount fraction = fraction.length :=
    byteCount_digits fun c hc => hdigits c (List.mem_append_right _ hc)
  simp only [readMantissa, htake, hdrop, hsecond, hinteger, hbytes, Bool.false_eq_true, if_false]

/-- A sign and digits, with a point if there are places, read as a decimal with those places. -/
theorem read_places (hwhole : whole ≠ []) (hdigits : AllDigits (whole ++ fraction))
    (hvalue : valueOfDigits (whole ++ fraction) = n.natAbs)
    (hpoint : point = '.' :: fraction ∨ point = [] ∧ fraction = []) {text : String}
    (htext : text.toList = withSign (n < 0) whole ++ point)
    (hfits : FitsInt32 (-(fraction.length : ℤ))) :
    read text = .ok ⟨n, -(fraction.length : ℤ), hfits⟩ := by
  have hmark : ∀ c ∈ text.toList, c ≠ 'e' ∧ c ≠ 'E' := by
    have hdigit {c : Char} (hc : c ∈ whole ++ fraction) : c ≠ 'e' ∧ c ≠ 'E' :=
      ⟨ne_of_isDigit (hdigits c hc) (by decide), ne_of_isDigit (hdigits c hc) (by decide)⟩
    intro c hc
    rw [htext, List.mem_append] at hc
    rcases hc with hc | hc
    · rcases mem_withSign hc with rfl | hc
      · decide
      · exact hdigit (List.mem_append_left _ hc)
    · rcases hpoint with rfl | ⟨rfl, _⟩
      · rcases List.mem_cons.1 hc with rfl | hc
        · decide
        · exact hdigit (List.mem_append_right _ hc)
      · cases hc
  have hmantissa := readMantissa_digits hwhole hdigits hvalue hpoint
  rw [← htext] at hmantissa
  have hexponent : (0 : ℤ) - (fraction.length : ℕ) = -(fraction.length : ℤ) := by ring
  simp only [read, splitExponent_of_forall hmark, readExponent, hmantissa, bind, Except.bind,
    hexponent, hfits, dif_pos]

/-- What a decimal becomes when it is written and read: itself, or the integer that it is when its
exponent is positive. -/
def withoutExponent (d : Decimal) : Decimal :=
  if d.exponent ≤ 0 then d else ofInteger (d.coefficientAt 0)

/-- The text of a decimal with places. -/
theorem toList_fixed {d : Decimal} (h : d.exponent < 0) :
    d.fixed.toList =
      withSign (d.coefficient < 0) (splitPlaces d.coefficient.natAbs (-d.exponent).toNat).1 ++
        '.' :: (splitPlaces d.coefficient.natAbs (-d.exponent).toNat).2 := by
  obtain ⟨-, hlength⟩ := length_splitPlaces d.coefficient.natAbs (-d.exponent).toNat
  have hfraction : (splitPlaces d.coefficient.natAbs (-d.exponent).toNat).2 ≠ [] :=
    List.ne_nil_of_length_pos (by omega)
  simp only [fixed, if_neg (not_le.2 h), joinPlaces, List.isEmpty_iff, if_neg hfraction,
    String.toList_ofList, withSign_append]
  rfl

theorem mem_fixed {d : Decimal} {c : Char} (h : c ∈ d.fixed.toList) :
    c = '-' ∨ c = '.' ∨ c.isDigit = true := by
  rcases le_or_gt 0 d.exponent with hnonneg | hneg
  · rw [fixed, if_pos hnonneg] at h
    rcases mem_ofInteger h with rfl | h
    · exact .inl rfl
    · exact .inr (.inr h)
  · have hdigits := allDigits_splitPlaces d.coefficient.natAbs (-d.exponent).toNat
    rw [toList_fixed hneg] at h
    rcases List.mem_append.1 h with h | h
    · rcases mem_withSign h with rfl | h
      · exact .inl rfl
      · exact .inr (.inr (hdigits c (List.mem_append_left _ h)))
    · rcases List.mem_cons.1 h with rfl | h
      · exact .inr (.inl rfl)
      · exact .inr (.inr (hdigits c (List.mem_append_right _ h)))

/-- The text that keeps the scale reads back as the decimal. -/
theorem read_fixed (d : Decimal) : read d.fixed = .ok d.withoutExponent := by
  rcases le_or_gt 0 d.exponent with hnonneg | hneg
  · -- the text of an integer
    have hread : read (Text.ofInteger (d.coefficientAt 0)) =
        .ok ⟨d.coefficientAt 0, -(([] : List Char).length : ℤ), by decide⟩ :=
      read_places (repr_toList_ne_nil _) ((allDigits_repr _).append allDigits_nil)
        (by rw [List.append_nil, valueOfDigits_repr]) (Or.inr ⟨rfl, rfl⟩)
        (by rw [toList_ofInteger, List.append_nil]) (by decide)
    rw [fixed, if_pos hnonneg, hread, withoutExponent]
    rcases eq_or_lt_of_le hnonneg with hzero | hpos
    · obtain ⟨coefficient, exponent, fits⟩ := d
      obtain rfl : 0 = exponent := hzero
      simp [coefficientAt]
    · rw [if_neg (by omega)]
      rfl
  · obtain ⟨hwhole, hlength⟩ := length_splitPlaces d.coefficient.natAbs (-d.exponent).toNat
    have hplaces : -((splitPlaces d.coefficient.natAbs (-d.exponent).toNat).2.length : ℤ) =
        d.exponent := by omega
    rw [read_places hwhole (allDigits_splitPlaces _ _) (valueOfDigits_splitPlaces _ _) (Or.inl rfl)
      (toList_fixed hneg) (by rw [hplaces]; exact d.fits), withoutExponent, if_pos hneg.le]
    simp only [hplaces]

end Reckoner.Decimal
