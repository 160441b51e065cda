import Mathlib.Tactic
import Reckoner.Datum.Printer
import Reckoner.Proofs.Binary64.Literal
import Reckoner.Token

/-!
# Scanning an item

The scanner goes through modes.  `Scan.At` says what mode it is in and which tokens it has found,
and forgets where in the text it is.  There are three groups of lemmas.

* Whole items.  `NumberChars` and `WordChars` are the characters that the scanner collects as one
  number or one symbol, latest first like the scanner keeps them.  From between two items, such a
  text leads into the mode that holds it (`scan_number`, `scan_word`), and a written text between
  quotes leads to its token (`scan_text`).
* The end of an item.  `Scan.Settles` are the tokens with the item that is not finished yet.  A
  space, a closing parenthesis and the end of the text finish it.
* What the scanner finds.  `Lexeme` describes the atoms that scanning any text can give, and
  `lexeme_of_scan` proves it by an invariant of the single step.  `opensIn_of_scan` says in the same
  way that every position is one of the text.
-/

namespace Reckoner.Token

open Datum (escapeChar)

/-- What the scanner is in the middle of and what it has found. -/
def Scan.At (s : Scan) (mode : Mode) (tokens : List Token) : Prop :=
  s.mode = mode ∧ s.tokens = tokens

variable {source : String} {s : Scan} {mode : Mode} {tokens : List Token} {chars : List Char}
  {c : Char}

theorem Scan.At.advance (h : s.At mode tokens) (c : Char) : (s.advance c).At mode tokens := by
  unfold Scan.advance
  split <;> exact h

theorem Scan.At.become (h : s.At mode tokens) (next : Mode) : (s.become next).At next tokens :=
  ⟨rfl, h.2⟩

theorem Scan.At.emit (h : s.At mode tokens) (token : Token) (next : Mode) :
    ((s.emit token).become next).At next (token :: tokens) :=
  ⟨rfl, congrArg (token :: ·) h.2⟩

/-! ## Numbers and symbols -/

/-- Whether a character starts a number where an item can start. -/
def startsNumber (c : Char) : Bool := c.isDigit || c == '-'

/-- Whether a character starts a symbol where an item can start. -/
def startsWord (c : Char) : Bool :=
  !(c == '(' || c == ')' || c == '\x27' || c == '"' || startsNumber c || isSeparator c)

/-- The characters of one number, latest first. -/
inductive NumberChars : List Char → Prop where
  | start {c : Char} (h : startsNumber c = true) : NumberChars [c]
  | more {c : Char} {chars : List Char} (hchars : NumberChars chars)
      (h : continuesNumber chars c = true) : NumberChars (c :: chars)

/-- The characters of one symbol, latest first.  A slash and a star would start a comment. -/
inductive WordChars : List Char → Prop where
  | start {c : Char} (h : startsWord c = true) : WordChars [c]
  | more {c : Char} {chars : List Char} (hchars : WordChars chars) (h : endsSymbol c = false)
      (hcomment : ¬(c = '*' ∧ chars = ['/'])) : WordChars (c :: chars)

theorem start_number (h : startsNumber c = true) (s : Scan) :
    s.start source c = s.become (.number [c]) := by
  have hne {d : Char} (hd : startsNumber d = false) : c ≠ d := by
    rintro rfl
    rw [h] at hd
    cases hd
  rw [Scan.start, if_neg (hne (by decide)), if_neg (hne (by decide)), if_neg (hne (by decide)),
    if_neg (hne (by decide)), if_pos (show (c.isDigit || c == '-') = true from h)]

theorem start_word (h : startsWord c = true) (s : Scan) :
    s.start source c = s.become (.symbol [c]) := by
  simp only [startsWord, Bool.not_eq_true', Bool.or_eq_false_iff, beq_eq_false_iff_ne] at h
  obtain ⟨⟨⟨⟨⟨hopen, hclose⟩, hquote⟩, htext⟩, hnumber⟩, hseparator⟩ := h
  have hnumber' : ¬(c.isDigit || c == '-') = true := by rw [Bool.not_eq_true]; exact hnumber
  rw [Scan.start, if_neg hopen, if_neg hclose, if_neg hquote, if_neg htext, if_neg hnumber',
    if_neg (by rw [Bool.not_eq_true]; exact hseparator)]

theorem step_between (h : s.At .between tokens) (c : Char) :
    s.step source c = (s.advance c).start source c := by
  simp only [Scan.step, Scan.take, (h.advance c).1]

theorem scan_number (source : String) (hchars : NumberChars chars) (h : s.At .between tokens) :
    (chars.reverse.foldl (Scan.step source) s).At (.number chars) tokens := by
  induction hchars with
  | start hstart =>
    rw [List.reverse_singleton, List.foldl_cons, List.foldl_nil, step_between h,
      start_number hstart]
    exact (h.advance _).become _
  | more hchars hmore ih =>
    rw [List.reverse_cons, List.foldl_append, List.foldl_cons, List.foldl_nil]
    simp only [Scan.step, Scan.take, (ih.advance _).1, hmore, if_true]
    exact (ih.advance _).become _

theorem scan_word (source : String) (hchars : WordChars chars) (h : s.At .between tokens) :
    (chars.reverse.foldl (Scan.step source) s).At (.symbol chars) tokens := by
  induction hchars with
  | start hstart =>
    rw [List.reverse_singleton, List.foldl_cons, List.foldl_nil, step_between h, start_word hstart]
    exact (h.advance _).become _
  | more hchars hends hcomment ih =>
    rw [List.reverse_cons, List.foldl_append, List.foldl_cons, List.foldl_nil]
    simp only [Scan.step, Scan.take, (ih.advance _).1, hends, if_neg hcomment, Bool.false_eq_true,
      if_false]
    exact (ih.advance _).become _

theorem NumberChars.digits (hchars : NumberChars chars) {ds : List Char}
    (hds : ∀ c ∈ ds, c.isDigit = true) : NumberChars (ds.reverse ++ chars) := by
  induction ds generalizing chars with
  | nil => exact hchars
  | cons d ds ih =>
    rw [List.reverse_cons, List.append_assoc]
    apply ih
    · apply hchars.more
      simp [continuesNumber, hds d List.mem_cons_self]
    · exact fun c hc => hds c (List.mem_cons_of_mem d hc)

/-! ## Texts -/

theorem unescape_escapeChar (c : Char) (rest : List Char) :
    unescape (escapeChar c ++ rest) = c :: unescape rest := by
  unfold escapeChar
  split
  · rfl
  · rfl
  · rfl
  · rfl
  · rename_i hbackslash _ _ _
    rw [List.singleton_append, unescape]
    all_goals
      intro _ hc
      exact absurd hc hbackslash

/-- Reading the escapes of a written text gives the text. -/
theorem unescape_escape (text : List Char) : unescape (text.flatMap escapeChar) = text := by
  induction text with
  | nil => rfl
  | cons c text ih => rw [List.flatMap_cons, unescape_escapeChar, ih]

theorem scan_escaped (source : String) (text : List Char) (h : s.At (.text chars) tokens) :
    ((text.flatMap escapeChar).foldl (Scan.step source) s).At
      (.text ((text.flatMap escapeChar).reverse ++ chars)) tokens := by
  induction text generalizing s chars with
  | nil => exact h
  | cons c text ih =>
    rw [List.flatMap_cons, List.foldl_append, List.reverse_append, List.append_assoc]
    apply ih
    -- an escape takes two steps, through the mode after a backslash
    have hescape (d : Char) : (['\\', d].foldl (Scan.step source) s).At
        (.text ([d, '\\'] ++ chars)) tokens := by
      have hfirst : (s.step source '\\').At (.escape ('\\' :: chars)) tokens := by
        simp only [Scan.step, Scan.take, (h.advance _).1, if_true]
        exact (h.advance _).become _
      simp only [List.foldl_cons, List.foldl_nil]
      rw [Scan.step, Scan.take, (hfirst.advance d).1]
      exact (hfirst.advance d).become _
    unfold escapeChar
    split
    · exact hescape _
    · exact hescape _
    · exact hescape _
    · exact hescape _
    · rename_i hbackslash hquote _ _
      simp only [List.foldl_cons, List.foldl_nil, Scan.step, Scan.take, (h.advance c).1,
        if_neg (fun hc => hbackslash hc), if_neg (fun hc => hquote hc)]
      exact (h.advance c).become _

theorem scan_text (text : String) (h : s.At .between tokens) :
    ((Datum.writeText text).toList.foldl (Scan.step source) s).At .between
      (.atom (.text text) :: tokens) := by
  rw [Datum.writeText, String.toList_ofList, List.cons_append, List.foldl_cons, List.foldl_append,
    List.foldl_cons, List.foldl_nil]
  have hopen : (s.step source '"').At (.text []) tokens := by
    rw [step_between h]
    exact (h.advance _).become _
  have hbody := scan_escaped source text.toList hopen
  generalize (text.toList.flatMap escapeChar).foldl (Scan.step source) (s.step source '"') = t
    at hbody
  simp only [Scan.step, Scan.take, (hbody.advance _).1, if_true, List.append_nil,
    List.reverse_reverse, unescape_escape, String.ofList_toList]
  exact (hbody.advance _).emit _ _

/-! ## The end of an item -/

/-- The tokens of a scan once the item that it is in the middle of is finished. -/
inductive Scan.Settles (s : Scan) : List Token → Prop where
  | between {tokens : List Token} (h : s.At .between tokens) : s.Settles tokens
  | number {chars : List Char} {tokens : List Token} (h : s.At (.number chars) tokens) :
      s.Settles (.atom (numberAtom chars.reverse) :: tokens)
  | symbol {chars : List Char} {tokens : List Token} (h : s.At (.symbol chars) tokens) :
      s.Settles (.atom (symbolAtom chars.reverse) :: tokens)

/-- A blank or a parenthesis finishes an item and then counts as between items. -/
theorem Scan.Settles.step (h : s.Settles tokens) (source : String) (hc : endsSymbol c = true) :
    ∃ t : Scan, t.At .between tokens ∧ s.step source c = t.start source c := by
  cases h with
  | between h => exact ⟨s.advance c, h.advance c, step_between h c⟩
  | number h =>
    rename_i chars tokens
    have hcontinues : continuesNumber chars c = false := by
      simp only [endsSymbol, isSeparator, Bool.or_eq_true, beq_iff_eq] at hc
      rcases hc with ((((rfl | rfl) | rfl) | rfl) | rfl) | rfl <;> rfl
    refine ⟨((s.advance c).emit (.atom (numberAtom chars.reverse))).become .between,
      (h.advance c).emit _ _, ?_⟩
    simp only [Scan.step, Scan.take, (h.advance c).1, hcontinues, Bool.false_eq_true, if_false]
    rfl
  | symbol h =>
    rename_i chars tokens
    have hcomment : ¬(c = '*' ∧ chars = ['/']) := by
      rintro ⟨rfl, _⟩
      cases hc
    refine ⟨((s.advance c).emit (.atom (symbolAtom chars.reverse))).become .between,
      (h.advance c).emit _ _, ?_⟩
    simp only [Scan.step, Scan.take, (h.advance c).1, if_neg hcomment, hc, if_true]
    rfl

theorem Scan.Settles.separator (h : s.Settles tokens) (source : String)
    (hc : isSeparator c = true) : (s.step source c).At .between tokens := by
  obtain ⟨t, ht, hstep⟩ := h.step source (c := c) (by rw [endsSymbol, hc]; rfl)
  rw [hstep]
  simp only [isSeparator, Bool.or_eq_true, beq_iff_eq] at hc
  rcases hc with ((rfl | rfl) | rfl) | rfl <;> exact ht.become _

theorem Scan.Settles.space (h : s.Settles tokens) (source : String) :
    (s.step source ' ').At .between tokens :=
  h.separator source rfl

theorem Scan.Settles.close (h : s.Settles tokens) :
    (s.step source ')').At .between (.closing :: tokens) := by
  obtain ⟨t, ht, hstep⟩ := h.step source (c := ')') rfl
  rw [hstep]
  exact ht.emit _ _

theorem Scan.At.open (h : s.At .between tokens) (source : String) :
    ∃ position, (s.step source '(').At .between (.opening position :: tokens) := by
  rw [step_between h]
  exact ⟨_, (h.advance _).emit _ _⟩

theorem Scan.Settles.finish (h : s.Settles tokens) : s.finish source = .ok tokens.reverse := by
  cases h with
  | between h => simp only [Scan.finish, h.1, h.2]
  | number h => simp only [Scan.finish, h.1, Scan.emit, h.2]
  | symbol h => simp only [Scan.finish, h.1, Scan.emit, h.2]

/-! ## What the scanner finds -/

/-- The numbers that have a literal: integers and finite doubles. -/
def IsLiteral : Number → Bool
  | .int64 _ => true
  | .bigint _ => true
  | .float64 x => x.isFinite
  | _ => false

/-- The characters of a symbol that can stand in a text: a word, or what starts like a number and is
none. -/
def SymbolChars (chars : List Char) : Prop :=
  WordChars chars.reverse ∨ NumberChars chars.reverse ∧ numberAtom chars = symbolAtom chars

/-- The atoms that can stand in a text. -/
inductive Lexeme : Datum → Prop where
  | symbol {chars : List Char} (h : SymbolChars chars) : Lexeme (symbolAtom chars)
  | text (text : String) : Lexeme (.text text)
  | number {n : Number} (h : IsLiteral n = true) : Lexeme (.number n)

/-- All atoms among some tokens can stand in a text. -/
def Lexemes (tokens : List Token) : Prop := ∀ datum, Token.atom datum ∈ tokens → Lexeme datum

theorem lexemes_nil : Lexemes [] := fun _ h => absurd h List.not_mem_nil

theorem Lexemes.cons (h : Lexemes tokens) {token : Token}
    (htoken : ∀ datum, token = .atom datum → Lexeme datum) : Lexemes (token :: tokens) := by
  intro datum hmem
  rcases List.mem_cons.1 hmem with heq | hmem
  · exact htoken datum heq.symm
  · exact h datum hmem

theorem Lexemes.atom (h : Lexemes tokens) {datum : Datum} (hdatum : Lexeme datum) :
    Lexemes (.atom datum :: tokens) :=
  h.cons fun _ heq => Token.atom.inj heq ▸ hdatum

theorem NumberChars.toLower_ne (h : NumberChars chars) : ∀ c ∈ chars, c.toLower ≠ 'n' := by
  have hdigit {c : Char} (hc : c.isDigit = true) : c.toLower ≠ 'n' := by
    rw [Binary64.toLower_of_isDigit hc]
    exact Text.ne_of_isDigit hc (by decide)
  induction h with
  | start hc =>
    simp only [startsNumber, Bool.or_eq_true, beq_iff_eq] at hc
    intro c hmem
    obtain rfl := List.mem_singleton.1 hmem
    rcases hc with hc | rfl
    · exact hdigit hc
    · decide
  | more hchars hc ih =>
    simp only [continuesNumber, Bool.or_eq_true, Bool.and_eq_true, beq_iff_eq] at hc
    intro c hmem
    rcases List.mem_cons.1 hmem with rfl | hmem
    · rcases hc with (((rfl | rfl) | rfl) | hc) | ⟨rfl | rfl, _⟩
      · decide
      · decide
      · decide
      · exact hdigit hc
      · decide
      · decide
    · exact ih c hmem

theorem lexeme_numberAtom (h : NumberChars chars) : Lexeme (numberAtom chars.reverse) := by
  have hsymbol (heq : numberAtom chars.reverse = symbolAtom chars.reverse) :
      Lexeme (numberAtom chars.reverse) := by
    rw [heq]
    exact .symbol (.inr ⟨by rwa [List.reverse_reverse], heq⟩)
  have hread {x : Binary64} (hx : Binary64.read chars.reverse = .ok x) : x.isFinite = true :=
    Binary64.isFinite_of_read (fun c hc => h.toLower_ne c (List.mem_reverse.1 hc)) hx
  cases hinteger : Text.readInteger chars.reverse with
  | some n =>
    rw [numberAtom, hinteger]
    dsimp only
    split
    · exact .number rfl
    · exact .number rfl
  | none =>
    by_cases hfraction : (chars.reverse.any fun c => c == '.' || c == 'e' || c == 'E') = true
    · cases hvalue : Binary64.read chars.reverse with
      | ok x =>
        simp only [numberAtom, hinteger, hfraction, if_true, hvalue]
        exact .number (hread hvalue)
      | error fault =>
        apply hsymbol
        simp only [numberAtom, hinteger, hfraction, if_true, hvalue]
        rfl
    · apply hsymbol
      simp only [numberAtom, hinteger, if_neg hfraction]
      rfl

/-- The invariant of the scanner. -/
structure Scan.Sound (s : Scan) : Prop where
  number : ∀ chars, s.mode = .number chars → NumberChars chars
  symbol : ∀ chars, s.mode = .symbol chars → WordChars chars
  tokens : Lexemes s.tokens

theorem Scan.sound_become (h : Lexemes s.tokens)
    (hnumber : ∀ chars, mode = .number chars → NumberChars chars)
    (hsymbol : ∀ chars, mode = .symbol chars → WordChars chars) : (s.become mode).Sound :=
  ⟨hnumber, hsymbol, h⟩

/-- Only numbers and symbols need a proof when the mode changes. -/
theorem Scan.sound_become_other (h : Lexemes s.tokens) (hnumber : ∀ chars, mode ≠ .number chars)
    (hsymbol : ∀ chars, mode ≠ .symbol chars) : (s.become mode).Sound :=
  sound_become h (fun chars heq => absurd heq (hnumber chars))
    (fun chars heq => absurd heq (hsymbol chars))

theorem Scan.sound_number (h : Lexemes s.tokens) (hchars : NumberChars chars) :
    (s.become (.number chars)).Sound :=
  sound_become h (fun _ heq => Mode.number.inj heq ▸ hchars) (fun _ heq => Mode.noConfusion heq)

theorem Scan.sound_symbol (h : Lexemes s.tokens) (hchars : WordChars chars) :
    (s.become (.symbol chars)).Sound :=
  sound_become h (fun _ heq => Mode.noConfusion heq) (fun _ heq => Mode.symbol.inj heq ▸ hchars)

theorem Scan.sound_start (h : Lexemes s.tokens) (c : Char) : (s.start source c).Sound := by
  have hemit {token : Token} (htoken : ∀ datum, token ≠ .atom datum) :
      ((s.emit token).become .between).Sound :=
    sound_become_other (h.cons fun datum heq => absurd heq (htoken datum)) (by simp) (by simp)
  unfold start
  split_ifs with hopen hclose hquote htext hnumber hseparator
  · exact hemit (by simp)
  · exact hemit (by simp)
  · exact hemit (by simp)
  · exact sound_become_other h (by simp) (by simp)
  · exact sound_number h (.start hnumber)
  · exact sound_become_other h (by simp) (by simp)
  · apply sound_symbol h
    apply WordChars.start
    simp only [startsWord, startsNumber, Bool.not_eq_true', Bool.or_eq_false_iff,
      beq_eq_false_iff_ne] at hnumber hseparator ⊢
    simp_all

theorem Scan.Sound.step (h : s.Sound) (c : Char) : (s.step source c).Sound := by
  have hadvance : (s.advance c).Sound := by
    unfold Scan.advance
    split
    · exact ⟨h.number, h.symbol, h.tokens⟩
    · exact ⟨h.number, h.symbol, h.tokens⟩
  obtain ⟨hnumber, hsymbol, htokens⟩ := hadvance
  unfold Scan.step
  generalize s.advance c = t at hnumber hsymbol htokens
  unfold Scan.take
  split
  · exact Scan.sound_start htokens c
  · rename_i chars hmode
    split
    · exact Scan.sound_number htokens (.more (hnumber chars hmode) ‹_›)
    · exact Scan.sound_start (htokens.atom (lexeme_numberAtom (hnumber chars hmode))) c
  · rename_i chars hmode
    have hword := hsymbol chars hmode
    split_ifs with hcomment hends
    · exact Scan.sound_become_other htokens (by simp) (by simp)
    · refine Scan.sound_start (htokens.atom (.symbol (.inl ?_))) c
      rwa [List.reverse_reverse]
    · exact Scan.sound_symbol htokens (.more hword (Bool.not_eq_true _ ▸ hends) hcomment)
  · split_ifs
    · exact Scan.sound_become_other htokens (by simp) (by simp)
    · exact Scan.sound_become_other (htokens.atom (.text _)) (by simp) (by simp)
    · exact Scan.sound_become_other htokens (by simp) (by simp)
  · exact Scan.sound_become_other htokens (by simp) (by simp)
  · split
    · exact Scan.sound_become_other htokens (by simp) (by simp)
    · exact ⟨hnumber, hsymbol, htokens⟩
  · split
    · exact Scan.sound_become_other htokens (by simp) (by simp)
    · exact Scan.sound_become_other htokens (by simp) (by simp)

theorem Scan.Sound.run (h : s.Sound) (text : List Char) :
    (text.foldl (Scan.step source) s).Sound := by
  induction text generalizing s with
  | nil => exact h
  | cons c text ih => exact ih (h.step c)

theorem Scan.Sound.finish (h : s.Sound) (hfinish : s.finish source = .ok tokens) :
    Lexemes tokens := by
  have hreverse {found : List Token} (hfound : Lexemes found)
      (heq : (.ok found.reverse : Except ReadError (List Token)) = .ok tokens) :
      Lexemes tokens := by
    cases heq
    exact fun datum hmem => hfound datum (List.mem_reverse.1 hmem)
  unfold Scan.finish at hfinish
  split at hfinish
  · exact hreverse (h.tokens.atom (lexeme_numberAtom (h.number _ ‹_›))) hfinish
  · refine hreverse (h.tokens.atom (.symbol (.inl ?_))) hfinish
    rw [List.reverse_reverse]
    exact h.symbol _ ‹_›
  · cases hfinish
  · cases hfinish
  · exact hreverse h.tokens hfinish

/-- Every atom that scanning finds is a lexeme. -/
theorem lexeme_of_scan {text : String} (h : scan source text = .ok tokens) : Lexemes tokens := by
  have hstart : Scan.Sound {} :=
    ⟨fun _ heq => Mode.noConfusion heq, fun _ heq => Mode.noConfusion heq, lexemes_nil⟩
  exact (hstart.run text.toList).finish h

/-! ## Where tokens stand -/

/-- The opening parentheses among some tokens stand in one text. -/
def OpensIn (source : String) (tokens : List Token) : Prop :=
  ∀ position, Token.opening position ∈ tokens → position.source = source

theorem OpensIn.cons (h : OpensIn source tokens) {token : Token}
    (htoken : ∀ position, token = .opening position → position.source = source) :
    OpensIn source (token :: tokens) := by
  intro position hmem
  rcases List.mem_cons.1 hmem with heq | hmem
  · exact htoken position heq.symm
  · exact h position hmem

theorem Scan.opensIn_start (h : OpensIn source s.tokens) (c : Char) :
    OpensIn source (s.start source c).tokens := by
  unfold start
  split_ifs
  · refine h.cons fun position heq => ?_
    cases heq
    rfl
  · exact h.cons (by simp)
  · exact h.cons (by simp)
  · exact h
  · exact h
  · exact h
  · exact h

theorem Scan.opensIn_step (h : OpensIn source s.tokens) (c : Char) :
    OpensIn source (s.step source c).tokens := by
  have hadvance : OpensIn source (s.advance c).tokens := by
    unfold Scan.advance
    split <;> exact h
  have hatom (datum : Datum) : OpensIn source ((s.advance c).emit (.atom datum)).tokens :=
    hadvance.cons (by simp)
  unfold Scan.step Scan.take
  split
  · exact opensIn_start hadvance c
  · split_ifs
    · exact hadvance
    · exact opensIn_start (hatom _) c
  · split_ifs
    · exact hadvance
    · exact opensIn_start (hatom _) c
    · exact hadvance
  · split_ifs
    · exact hadvance
    · exact hatom _
    · exact hadvance
  · exact hadvance
  · split_ifs <;> exact hadvance
  · split_ifs <;> exact hadvance

/-- Every list that scanning finds stands in the text that is scanned. -/
theorem opensIn_of_scan {text : String} (h : scan source text = .ok tokens) :
    OpensIn source tokens := by
  have hrun (chars : List Char) (s : Scan) (hs : OpensIn source s.tokens) :
      OpensIn source (chars.foldl (Scan.step source) s).tokens := by
    induction chars generalizing s with
    | nil => exact hs
    | cons c chars ih => exact ih _ (Scan.opensIn_step hs c)
  have hlast := hrun text.toList {} fun _ hmem => absurd hmem List.not_mem_nil
  have hreverse {found : List Token} (hfound : OpensIn source found)
      (heq : (.ok found.reverse : Except ReadError (List Token)) = .ok tokens) :
      OpensIn source tokens := by
    cases heq
    exact fun position hmem => hfound position (List.mem_reverse.1 hmem)
  unfold scan Scan.finish at h
  split at h
  · exact hreverse (hlast.cons (by simp)) h
  · exact hreverse (hlast.cons (by simp)) h
  · cases h
  · cases h
  · exact hreverse hlast h

end Reckoner.Token
