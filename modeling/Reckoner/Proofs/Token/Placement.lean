import Mathlib.Data.List.DropRight
import Reckoner.Proofs.Program

/-!
# Where opening parentheses stand

The scanner counts every character before it looks at it, whatever it is in the middle of, so the
position of a parenthesis depends on the characters before it and on nothing else:
`Scan.placedAfter_run` gives the counters after any text.  Lines are counted from one.  A newline
counts as the first column of the line it starts, so the columns of the first line start with one
and those of every later line with two.

`openingOffsets` are the parentheses that open a list.  One character adds at most one position
(`Scan.PlacedAfter.step_opening`, `Scan.step_other`), and `opening_positions` gives the positions of
a text in order.
-/

namespace Reckoner.Token

variable {source : String} {s : Scan} {tokens : List Token}

/-! ## Counting -/

/-- The characters after the last newline. -/
def lastLine (text : List Char) : List Char := text.rtakeWhile (· != '\n')

/-- The number of characters of the last line, with the newline that starts it. -/
def lastColumn (text : List Char) : ℕ := (lastLine text).length + if '\n' ∈ text then 1 else 0

theorem lastColumn_newline (text : List Char) : lastColumn (text ++ ['\n']) = 1 := by
  rw [lastColumn, lastLine, List.rtakeWhile_concat_neg _ _ _ (by decide), if_pos (by simp)]
  rfl

theorem lastColumn_other (text : List Char) {c : Char} (hc : c ≠ '\n') :
    lastColumn (text ++ [c]) = lastColumn text + 1 := by
  have hmem : '\n' ∈ text ++ [c] ↔ '\n' ∈ text := by simp [hc.symm]
  rw [lastColumn, lastColumn, lastLine, List.rtakeWhile_concat_pos _ _ _ (by simpa using hc),
    List.length_append, List.length_singleton, lastLine]
  simp only [hmem]
  omega

theorem Scan.start_place (source : String) (s : Scan) (c : Char) :
    (s.start source c).line = s.line ∧ (s.start source c).column = s.column := by
  unfold Scan.start
  split_ifs <;> exact ⟨rfl, rfl⟩

theorem Scan.take_place (source : String) (s : Scan) (c : Char) :
    (s.take source c).line = s.line ∧ (s.take source c).column = s.column := by
  unfold Scan.take
  split
  · exact start_place source s c
  · split_ifs
    · exact ⟨rfl, rfl⟩
    · exact start_place source _ c
  · split_ifs
    · exact ⟨rfl, rfl⟩
    · exact start_place source _ c
    · exact ⟨rfl, rfl⟩
  · split_ifs <;> exact ⟨rfl, rfl⟩
  · exact ⟨rfl, rfl⟩
  · split_ifs <;> exact ⟨rfl, rfl⟩
  · split_ifs <;> exact ⟨rfl, rfl⟩

/-- The counters of a scanner that has read a text. -/
structure Scan.PlacedAfter (s : Scan) (text : List Char) : Prop where
  line : s.line = 1 + text.count '\n'
  column : s.column = lastColumn text

theorem Scan.PlacedAfter.advance {text : List Char} (h : s.PlacedAfter text) (c : Char) :
    (s.advance c).PlacedAfter (text ++ [c]) := by
  unfold Scan.advance
  split
  · rename_i hc
    subst hc
    refine ⟨?_, (lastColumn_newline text).symm⟩
    rw [List.count_append, List.count_singleton_self, ← Nat.add_assoc, ← h.line]
  · rename_i hc
    refine ⟨?_, ?_⟩
    · rw [List.count_append, List.count_singleton, if_neg (by simpa using hc)]
      exact h.line
    · rw [lastColumn_other text hc, ← h.column]

theorem Scan.placedAfter_run (source : String) (text : List Char) :
    (text.foldl (Scan.step source) {}).PlacedAfter text := by
  induction text using List.reverseRecOn with
  | nil => exact ⟨rfl, rfl⟩
  | append_singleton text c ih =>
    rw [List.foldl_append, List.foldl_cons, List.foldl_nil]
    obtain ⟨hline, hcolumn⟩ := Scan.take_place source
      ((text.foldl (Scan.step source) {}).advance c) c
    exact ⟨hline.trans (ih.advance c).line, hcolumn.trans (ih.advance c).column⟩

/-! ## Parentheses that open a list -/

/-- The position that a token keeps. -/
def position? : Token → Option Position
  | .opening position => some position
  | _ => none

/-- Whether a character opens a list after a text: an opening parenthesis outside of quotes and
comments. -/
def opensAfter (source : String) (text : List Char) (c : Char) : Bool :=
  c == '(' && (text.foldl (Scan.step source) {}).mode.isOutside

/-- The places of the parentheses that open a list, as numbers of characters before them. -/
def openingOffsets (source : String) (text : List Char) : List ℕ :=
  (List.range text.length).filter fun i => text[i]?.any (opensAfter source (text.take i))

theorem openingOffsets_concat (source : String) (text : List Char) (c : Char) :
    openingOffsets source (text ++ [c]) =
      openingOffsets source text ++ if opensAfter source text c then [text.length] else [] := by
  have hbefore : (List.range text.length).filter (fun i =>
      (text ++ [c])[i]?.any (opensAfter source ((text ++ [c]).take i))) =
      openingOffsets source text := by
    refine List.filter_congr fun i hi => ?_
    rw [List.mem_range] at hi
    rw [List.getElem?_append_left hi, List.take_append_of_le_length hi.le]
  rw [openingOffsets, List.length_append, List.length_singleton, List.range_succ,
    List.filter_append, hbefore, List.filter_singleton]
  simp

theorem Scan.start_other (source : String) (s : Scan) {c : Char} (hc : c ≠ '(') :
    (s.start source c).tokens.filterMap position? = s.tokens.filterMap position? := by
  unfold Scan.start
  rw [if_neg hc]
  split_ifs <;> rfl

/-- A parenthesis that opens a list adds the position of the scanner. -/
theorem Scan.take_opening (source : String) (h : s.mode.isOutside = true) :
    (s.take source '(').tokens.filterMap position? =
      ⟨source, s.line, s.column⟩ :: s.tokens.filterMap position? := by
  unfold Scan.take
  cases hmode : s.mode with
  | between | number | symbol => rfl
  | text | escape | comment | commentStar =>
    rw [hmode] at h
    cases h

/-- No other character adds a position. -/
theorem Scan.take_other (source : String) {c : Char}
    (h : c = '(' → s.mode.isOutside = false) :
    (s.take source c).tokens.filterMap position? = s.tokens.filterMap position? := by
  unfold Scan.take
  cases hmode : s.mode with
  | between =>
    rw [hmode] at h
    exact start_other source s fun hc => nomatch h hc
  | number chars =>
    rw [hmode] at h
    dsimp only
    split_ifs
    · rfl
    · exact start_other source _ fun hc => nomatch h hc
  | symbol chars =>
    rw [hmode] at h
    dsimp only
    split_ifs
    · rfl
    · exact start_other source _ fun hc => nomatch h hc
    · rfl
  | text chars =>
    dsimp only
    split_ifs <;> rfl
  | escape chars => rfl
  | comment =>
    dsimp only
    split_ifs <;> rfl
  | commentStar =>
    dsimp only
    split_ifs <;> rfl

/-! ## The positions of a text -/

/-- The position of a character after a text, as the scanner counts. -/
def placeAfter (source : String) (text : List Char) : Position :=
  ⟨source, 1 + text.count '\n', 1 + lastColumn text⟩

theorem Scan.PlacedAfter.step_opening {text : List Char} (hs : s.PlacedAfter text)
    (source : String) (h : s.mode.isOutside = true) :
    (s.step source '(').tokens.filterMap position? =
      placeAfter source text :: s.tokens.filterMap position? := by
  have htake : (s.step source '(').tokens.filterMap position? =
      ⟨source, s.line, s.column + 1⟩ :: s.tokens.filterMap position? :=
    take_opening source h
  rw [htake, hs.line, hs.column, Nat.add_comm (lastColumn text)]
  rfl

theorem Scan.step_other (source : String) {c : Char} (h : c = '(' → s.mode.isOutside = false) :
    (s.step source c).tokens.filterMap position? = s.tokens.filterMap position? := by
  obtain ⟨hmode, htokens⟩ := Scan.At.advance (s := s) ⟨rfl, rfl⟩ c
  rw [← hmode] at h
  rw [Scan.step, take_other source h, htokens]

/-- The positions of the parentheses that open a list. -/
def openingPlaces (source : String) (text : List Char) : List Position :=
  (openingOffsets source text).map fun i => placeAfter source (text.take i)

theorem openingPlaces_concat (source : String) (text : List Char) (c : Char) :
    openingPlaces source (text ++ [c]) =
      openingPlaces source text ++
        if opensAfter source text c then [placeAfter source text] else [] := by
  have hbefore : (openingOffsets source text).map
      (fun i => placeAfter source ((text ++ [c]).take i)) = openingPlaces source text := by
    refine List.map_congr_left fun i hi => ?_
    have hi' : i < text.length := List.mem_range.1 (List.mem_filter.1 hi).1
    rw [List.take_append_of_le_length hi'.le]
  rw [openingPlaces, openingOffsets_concat, List.map_append, hbefore]
  split
  · rw [List.map_singleton, List.take_left]
  · rfl

/-- The positions that the scanner has found after a text, latest first. -/
theorem positions_run (source : String) (text : List Char) :
    (text.foldl (Scan.step source) {}).tokens.filterMap position? =
      (openingPlaces source text).reverse := by
  induction text using List.reverseRecOn with
  | nil => rfl
  | append_singleton text c ih =>
    rw [List.foldl_append, List.foldl_cons, List.foldl_nil, openingPlaces_concat,
      List.reverse_append, ← ih]
    cases hopens : opensAfter source text c with
    | true =>
      rw [opensAfter, Bool.and_eq_true, beq_iff_eq] at hopens
      obtain ⟨rfl, houtside⟩ := hopens
      exact (Scan.placedAfter_run source text).step_opening source houtside
    | false =>
      refine Scan.step_other source fun hc => ?_
      rw [opensAfter, hc] at hopens
      exact hopens

/-- The end of the text adds no position. -/
theorem positions_finish (h : s.finish source = .ok tokens) :
    tokens.filterMap position? = (s.tokens.filterMap position?).reverse := by
  unfold Scan.finish at h
  split at h
  · cases h
    rw [List.filterMap_reverse]
    rfl
  · cases h
    rw [List.filterMap_reverse]
    rfl
  · cases h
  · cases h
  · cases h
    rw [List.filterMap_reverse]

/-- The positions of the lists of a text, in order.  The line is one more than the number of
newlines before the parenthesis.  The column is one more than the number of characters before it on
the first line, and two more on every later line. -/
theorem opening_positions {text : String} (h : scan source text = .ok tokens) :
    tokens.filterMap position? =
      (openingOffsets source text.toList).map fun i =>
        let before := text.toList.take i
        ⟨source, 1 + before.count '\n',
          1 + ((lastLine before).length + if '\n' ∈ before then 1 else 0)⟩ := by
  rw [positions_finish h, positions_run, List.reverse_reverse]
  rfl

/-- Two lists on two lines, and two parentheses that open none. -/
theorem opening_positions_two_lines :
    let tokens := [.opening ⟨"t", 1, 1⟩, .atom (.text "("), .opening ⟨"t", 2, 4⟩,
      .atom (.symbol "a"), .closing, .closing]
    scan "t" "(\"(\"/*(*/\n  (a))" = .ok tokens ∧
      openingOffsets "t" "(\"(\"/*(*/\n  (a))".toList = [0, 12] ∧
      tokens.filterMap position? = [⟨"t", 1, 1⟩, ⟨"t", 2, 4⟩] := by
  intro tokens
  have hscan : scan "t" "(\"(\"/*(*/\n  (a))" = .ok tokens := by rfl
  exact ⟨hscan, by rfl, (opening_positions hscan).trans rfl⟩

/-- The column of a list at the start of the second line is not one. -/
theorem not_opening_positions_uniform :
    ¬∀ (source text : String) (tokens : List Token), scan source text = .ok tokens →
      tokens.filterMap position? =
        (openingOffsets source text.toList).map fun i =>
          let before := text.toList.take i
          ⟨source, 1 + before.count '\n', 1 + (lastLine before).length⟩ := by
  intro huniform
  have hline := huniform "t" "\n(" [.opening ⟨"t", 2, 2⟩] rfl
  have hcolumn : [(⟨"t", 2, 2⟩ : Position)] = [⟨"t", 2, 1⟩] := hline
  cases hcolumn

end Reckoner.Token
