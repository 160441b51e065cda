import Reckoner.Interpreter
import Reckoner.Proofs.Reader

/-!
# Printed data reads back

`Spells text datum` says that a text is scanned into tokens that read as one item, whatever stands
before it and whatever comes after.  Every readable datum is spelled by its printed text
(`spells_serialize`): words, numbers and texts scan into their token, and the items of a list are
separated by spaces.

An integer outside the range of 64 bits is the exception.  It is printed as a call of its
constructor, so that evaluating the text gives it back; `Occurs` says that there is none.
-/

namespace Reckoner

open Token Text

/-! ## The characters of numbers -/

theorem numberChars_withSign (negative : Bool) {ds : List Char} (hne : ds ≠ [])
    (hds : AllDigits ds) : NumberChars (withSign negative ds).reverse := by
  cases negative with
  | true =>
    rw [withSign, if_pos rfl, List.reverse_cons]
    exact (NumberChars.start rfl).digits hds
  | false =>
    obtain ⟨d, ds, rfl⟩ := List.exists_cons_of_ne_nil hne
    obtain ⟨hd, hds⟩ := hds.of_cons
    rw [withSign, if_neg Bool.false_ne_true, List.reverse_cons]
    refine (NumberChars.start ?_).digits hds
    simp [startsNumber, hd]

theorem numberChars_numeral (n : Binary64.Numeral) : NumberChars n.text.reverse := by
  have hwhole := numberChars_withSign n.negative n.whole_ne_nil n.whole_digits
  have hfraction :
      NumberChars (n.fractionText.reverse ++ (withSign n.negative n.whole).reverse) := by
    unfold Binary64.Numeral.fractionText
    split
    · exact hwhole
    · rw [List.reverse_cons, List.append_assoc]
      exact (hwhole.more (c := '.') rfl).digits n.fraction_digits
  rw [Binary64.Numeral.text, Binary64.Numeral.unsigned, ← withSign_append, List.reverse_append,
    List.reverse_append, List.append_assoc]
  unfold Binary64.Numeral.exponentPart
  split
  · exact hfraction
  · rename_i k _
    rw [Binary64.toList_exponentText, List.reverse_cons, List.reverse_cons, List.append_assoc,
      List.append_assoc]
    refine NumberChars.digits (.more (hfraction.more (c := 'e') rfl) ?_)
      (Binary64.allDigits_exponentDigits k)
    split <;> rfl

theorem numberAtom_ofInteger (n : Int64) :
    numberAtom (Text.ofInteger n.toInt).toList = .number (.int64 n) := by
  have hfits : FitsInt64 n.toInt := ⟨n.minValue_le_toInt, n.toInt_le⟩
  rw [numberAtom, readInteger_ofInteger]
  dsimp only
  rw [if_pos hfits, Int64.ofInt_toInt]

theorem numberAtom_numeral {n : Binary64.Numeral} {x : Binary64} {c : Char} (hmem : c ∈ n.text)
    (hc : c = '.' ∨ c = 'e') (hread : Binary64.read n.text = .ok x) :
    numberAtom n.text = .number (.float64 x) := by
  have hinteger : readInteger n.text = none := by
    rcases hc with rfl | rfl
    · exact readInteger_eq_none hmem rfl (by decide) (by decide)
    · exact readInteger_eq_none hmem rfl (by decide) (by decide)
  have hfractional : (n.text.any fun c => c == '.' || c == 'e' || c == 'E') = true := by
    rw [List.any_eq_true]
    exact ⟨c, hmem, by rcases hc with rfl | rfl <;> rfl⟩
  simp only [numberAtom, hinteger, hfractional, if_true, hread]

/-- A numeral without a point and without the mark of an exponent is a whole number. -/
theorem whole_of_not_mem {n : Binary64.Numeral} (hnone : ∀ c, c = '.' ∨ c = 'e' → c ∉ n.text) :
    n.fraction = [] ∧ n.exponent = none := by
  have hsuffix {c : Char} (hc : c ∈ n.fractionText ++ n.exponentPart) : c ∈ n.text := by
    rw [Binary64.Numeral.text, Binary64.Numeral.unsigned, ← withSign_append]
    exact List.mem_append_right _ hc
  constructor
  · by_contra hne
    refine hnone _ (.inl rfl) (hsuffix (List.mem_append_left _ ?_))
    rw [Binary64.Numeral.fractionText, if_neg hne]
    exact List.mem_cons_self
  · cases hk : n.exponent with
    | none => rfl
    | some k =>
      refine absurd (hsuffix (List.mem_append_right _ ?_)) (hnone _ (.inr rfl))
      rw [Binary64.Numeral.exponentPart, hk]
      dsimp only
      rw [Binary64.toList_exponentText]
      exact List.mem_cons_self

/-- The numeral with a fraction of one zero. -/
def Binary64.Numeral.padded (n : Binary64.Numeral) : Binary64.Numeral :=
  { n with
    fraction := ['0']
    fraction_digits := allDigits_zeros 1 }

section Padding

variable {n : Binary64.Numeral} (hfraction : n.fraction = []) (hexponent : n.exponent = none)

include hfraction hexponent

theorem text_padded : n.padded.text = n.text ++ ['.', '0'] := by
  simp [Binary64.Numeral.padded, Binary64.Numeral.text, Binary64.Numeral.unsigned,
    Binary64.Numeral.fractionText, Binary64.Numeral.exponentPart, hfraction, hexponent,
    withSign_append]

theorem magnitude_padded : n.padded.magnitude = n.magnitude := by
  have hzero := valueOfDigits_append_zeros 1 n.whole
  simp only [Binary64.Numeral.magnitude, Binary64.Numeral.padded, hfraction, hexponent,
    List.append_nil]
  rw [show ['0'] = List.replicate 1 '0' from rfl, hzero]
  simp

end Padding

/-- A finite double is written as a numeral with a point or an exponent. -/
theorem writeFloat_eq_text (negative : Bool) {m : ℕ} {e : ℤ} (canonical : Binary64.Canonical m e) :
    ∃ n : Binary64.Numeral, ∃ c ∈ n.text, (c = '.' ∨ c = 'e') ∧
      (Datum.writeFloat (.finite negative m e canonical)).toList = n.text ∧
      Binary64.read n.text = .ok (.finite negative m e canonical) := by
  obtain ⟨n, htext, rfl, hvalue⟩ :=
    Binary64.format_eq_text Binary64.towerLayout negative canonical
  simp only [Datum.writeFloat, htext]
  split
  · rename_i hany
    obtain ⟨c, hmem, hc⟩ := List.any_eq_true.1 hany
    exact ⟨n, c, hmem, by simpa using hc, htext, Binary64.read_text canonical hvalue⟩
  · -- no point and no exponent: the numeral is whole, and gets a fraction of one zero
    rename_i hany
    have hnone : ∀ c, c = '.' ∨ c = 'e' → c ∉ n.text := by
      intro c hc hmem
      exact hany (List.any_eq_true.2 ⟨c, hmem, by rcases hc with rfl | rfl <;> rfl⟩)
    obtain ⟨hfraction, hexponent⟩ := whole_of_not_mem hnone
    have hpadded := text_padded hfraction hexponent
    have hmagnitude := magnitude_padded hfraction hexponent
    refine ⟨n.padded, '.', ?_, .inl rfl, ?_, ?_⟩
    · rw [hpadded]
      simp
    · rw [hpadded, String.toList_append, htext]
      rfl
    · exact Binary64.read_text canonical (hmagnitude.trans hvalue)

/-! ## Spelling -/

/-- A text is one item up to positions, whatever stands before it. -/
def Spells (text : List Char) (datum : Datum) : Prop :=
  ∀ (source : String) (s : Scan) (before : List Token), s.At .between before →
    ∃ tokens, Reader.ReadsAs tokens datum ∧
      (text.foldl (Scan.step source) s).Settles (tokens.reverse ++ before)

/-- A text is items one after another, up to positions. -/
def SpellsItems (text : List Char) (items : List Datum) : Prop :=
  ∀ (source : String) (s : Scan) (before : List Token), s.At .between before →
    ∃ tokens, Reader.ReadsItems tokens items ∧
      (text.foldl (Scan.step source) s).Settles (tokens.reverse ++ before)

theorem spells_word {chars : List Char} (h : WordChars chars.reverse) :
    Spells chars (symbolAtom chars) := by
  intro source s before hs
  have hscan := scan_word source h hs
  rw [List.reverse_reverse] at hscan
  refine ⟨[.atom (symbolAtom chars)], Reader.readsAs_atom _, ?_⟩
  have hsettles := Scan.Settles.symbol hscan
  rwa [List.reverse_reverse] at hsettles

theorem spells_number {chars : List Char} (h : NumberChars chars.reverse) :
    Spells chars (numberAtom chars) := by
  intro source s before hs
  have hscan := scan_number source h hs
  rw [List.reverse_reverse] at hscan
  refine ⟨[.atom (numberAtom chars)], Reader.readsAs_atom _, ?_⟩
  have hsettles := Scan.Settles.number hscan
  rwa [List.reverse_reverse] at hsettles

theorem spells_symbol {chars : List Char} (h : SymbolChars chars) :
    Spells chars (symbolAtom chars) := by
  rcases h with hword | ⟨hnumber, hatom⟩
  · exact spells_word hword
  · rw [← hatom]
    exact spells_number hnumber

theorem spells_text (text : String) : Spells (Datum.writeText text).toList (.text text) :=
  fun _ _ _ hs => ⟨[.atom (.text text)], Reader.readsAs_atom _, .between (scan_text text hs)⟩

theorem spells_int64 (n : Int64) : Spells (Text.ofInteger n.toInt).toList (.number (.int64 n)) := by
  rw [← numberAtom_ofInteger]
  apply spells_number
  rw [toList_ofInteger]
  exact numberChars_withSign _ (repr_toList_ne_nil _) (allDigits_repr _)

theorem spells_finite (negative : Bool) {m : ℕ} {e : ℤ} (canonical : Binary64.Canonical m e) :
    Spells (Datum.writeFloat (.finite negative m e canonical)).toList
      (.number (.float64 (.finite negative m e canonical))) := by
  obtain ⟨n, c, hmem, hc, htext, hread⟩ := writeFloat_eq_text negative canonical
  rw [htext, ← numberAtom_numeral hmem hc hread]
  exact spells_number (numberChars_numeral n)

theorem spellsItems_nil : SpellsItems [] [] :=
  fun _ _ _ hs => ⟨[], Reader.readsItems_nil, .between hs⟩

theorem Spells.singleton {text : List Char} {datum : Datum} (h : Spells text datum) :
    SpellsItems text [datum] := by
  intro source s before hs
  obtain ⟨tokens, hreads, hsettles⟩ := h source s before hs
  refine ⟨tokens, ?_, hsettles⟩
  have hitems := hreads.cons_items Reader.readsItems_nil
  rwa [List.append_nil] at hitems

theorem Spells.cons {text others : List Char} {datum : Datum} {items : List Datum}
    (h : Spells text datum) (hothers : SpellsItems others items) :
    SpellsItems (text ++ ' ' :: others) (datum :: items) := by
  intro source s before hs
  obtain ⟨tokens, hreads, hsettles⟩ := h source s before hs
  obtain ⟨more, hitems, hmore⟩ := hothers source _ _ (hsettles.space source)
  refine ⟨tokens ++ more, hreads.cons_items hitems, ?_⟩
  rw [List.foldl_append, List.foldl_cons, List.reverse_append, List.append_assoc]
  exact hmore

theorem SpellsItems.list {text : List Char} {items : List Datum} (h : SpellsItems text items)
    (position : Option Position) : Spells ('(' :: (text ++ [')'])) (.list position items) := by
  intro source s before hs
  obtain ⟨place, hopen⟩ := hs.open source
  obtain ⟨tokens, hreads, hsettles⟩ := h source _ _ hopen
  refine ⟨.opening place :: (tokens ++ [.closing]), hreads.list place position, ?_⟩
  rw [List.foldl_cons, List.foldl_append, List.foldl_cons, List.foldl_nil, List.reverse_cons,
    List.reverse_append]
  simpa using Scan.Settles.between hsettles.close

/-! ## Printing spells -/

/-- A datum is another one, or is among its items. -/
inductive Datum.Occurs (part : Datum) : Datum → Prop where
  | self : Occurs part part
  | item {position : Option Position} {items : List Datum} {item : Datum} (hmem : item ∈ items)
      (h : Occurs part item) : Occurs part (.list position items)

theorem spells_serializeItems {nameOf : Native → String} {items : List Datum}
    (h : ∀ item ∈ items, Spells (item.serialize nameOf).toList item) :
    SpellsItems (Datum.serializeItems nameOf items).toList items := by
  induction items with
  | nil => exact spellsItems_nil
  | cons item rest ih =>
    have hitem := h item List.mem_cons_self
    have hrest := ih fun other hmem => h other (List.mem_cons_of_mem _ hmem)
    cases rest with
    | nil => exact hitem.singleton
    | cons next rest =>
      have hspells := hitem.cons hrest
      rw [Datum.serializeItems, String.toList_append, String.toList_append, List.append_assoc]
      · exact hspells
      · simp

/-- The printed text of what can be read spells it. -/
theorem spells_serialize (nameOf : Native → String) {datum : Datum} (h : datum.Readable)
    (hrange : ∀ n, ¬Datum.Occurs (.number (.bigint n)) datum) :
    Spells (datum.serialize nameOf).toList datum := by
  induction h with
  | atom hlexeme =>
    cases hlexeme with
    | symbol hsymbol =>
      rw [symbolAtom, Datum.serialize, String.toList_ofList]
      exact spells_symbol hsymbol
    | text text =>
      rw [Datum.serialize]
      exact spells_text text
    | number hliteral =>
      rename_i n
      rw [Datum.serialize]
      cases n with
      | int64 n => exact spells_int64 n
      | bigint n => exact absurd .self (hrange n)
      | float64 x =>
        cases x with
        | finite negative m e canonical => exact spells_finite negative canonical
        | nan => cases hliteral
        | infinite negative => cases hliteral
      | int32 n => cases hliteral
      | decimal d => cases hliteral
  | list position _ ih =>
    have hitems := spells_serializeItems fun item hmem =>
      ih item hmem fun n hoccurs => hrange n (.item hmem hoccurs)
    rw [Datum.serialize, String.toList_append, String.toList_append]
    exact hitems.list position

theorem read_of_spells {text : String} {datum : Datum} (h : Spells text.toList datum)
    (source : String) : ∃ tokens found, scan source text = .ok tokens ∧
      Reader.readFrom [] tokens = .ok (found, []) ∧ found.erase = datum.erase := by
  obtain ⟨tokens, hreads, hsettles⟩ := h source {} [] ⟨rfl, rfl⟩
  obtain ⟨found, herase, hread⟩ := hreads.readFrom
  refine ⟨tokens, found, ?_, hread, herase⟩
  rw [scan, hsettles.finish, List.append_nil, List.reverse_reverse]

/-- Printing an expression that was read, and reading it again, gives it back up to positions.  The
expression comes from a text with something other than quote marks, and has no integer outside the
range of 64 bits. -/
theorem Datum.read_serialize_of_read {source text : String} {tokens : List Token} {e : Datum}
    (hscan : scan source text = .ok tokens)
    (hsome : ∃ token ∈ tokens, token ≠ Token.quoteMark)
    (hread : Datum.read source text = .ok e)
    (hrange : ∀ n, ¬Datum.Occurs (.number (.bigint n)) e)
    (other : String) (i : Interpreter) (scope : ScopeId) :
    ∃ again, Datum.read other (i.serialize scope e) = .ok again ∧ again.erase = e.erase := by
  have hreadable : e.Readable := by
    obtain ⟨found, rest, hfound, hfrom⟩ := Datum.read_eq_ok_iff.1 hread
    obtain rfl : found = tokens := Except.ok.inj (hfound.symm.trans hscan)
    exact Reader.readable_of_readFrom Reader.itemsHave_nil (lexeme_of_scan hscan) (.inr hsome) hfrom
  obtain ⟨printed, again, hprinted, hagain, herase⟩ :=
    read_of_spells (spells_serialize (i.nativeName scope) hreadable hrange) other
  exact ⟨again, Datum.read_eq_ok_iff.2 ⟨printed, [], hprinted, hagain⟩, herase⟩

theorem Datum.read_serialize_of_read_mixed :
    ∃ e again, Datum.read "" "('- \"a\\\"b\" -0.0 1.2.3)" = .ok e ∧
      Datum.read "" (Interpreter.initial.serialize globalScope e) = .ok again ∧
      again.erase = e.erase := by
  let items : List Datum :=
    [.ofList [.symbol "quote", .symbol "-"], .text "a\"b", .number (.float64 (.zero true)),
      .symbol "1.2.3"]
  let tokens : List Token :=
    [.opening ⟨"", 1, 1⟩, .quoteMark, .atom (.symbol "-"), .atom (.text "a\"b"),
      .atom (.number (.float64 (.zero true))), .atom (.symbol "1.2.3"), .closing]
  have hscan : scan "" "('- \"a\\\"b\" -0.0 1.2.3)" = .ok tokens := rfl
  have hread : Datum.read "" "('- \"a\\\"b\" -0.0 1.2.3)" = .ok (.list (some ⟨"", 1, 1⟩) items) :=
    rfl
  have hrange (n : ℤ) :
      ¬Datum.Occurs (.number (.bigint n)) (.list (some ⟨"", 1, 1⟩) items) := by
    rintro (_ | ⟨hmem, hoccurs⟩)
    simp only [items, List.mem_cons, List.not_mem_nil, or_false] at hmem
    rcases hmem with rfl | rfl | rfl | rfl
    · rcases hoccurs with _ | ⟨hmem, hoccurs⟩
      simp only [List.mem_cons, List.not_mem_nil, or_false] at hmem
      rcases hmem with rfl | rfl <;> cases hoccurs
    all_goals cases hoccurs
  obtain ⟨again, hagain, herase⟩ := Datum.read_serialize_of_read hscan
    ⟨.closing, by simp [tokens], by simp⟩ hread hrange "" .initial globalScope
  exact ⟨_, again, hread, hagain, herase⟩

end Reckoner
