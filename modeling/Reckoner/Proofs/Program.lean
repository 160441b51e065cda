import Reckoner.Proofs.Reader

/-!
# Programs one after another

Two texts with a newline between them hold the expressions of the first and then those of the
second, as long as the first text is complete.  Positions differ, so everything is compared without
them.

* `Scan.Follows` compares the scanner that has read a text with one that has read something else
  before it.  They go through the same modes and find the same tokens; `Follows.step` is one
  character, `Follows.run` a text.
* `Token.IsExpression` is the grammar of the reader.  Tokens that are an expression are read as one,
  whatever comes after them, and so a sequence of them is read to its end and nothing is left open.
-/

namespace Reckoner

/-! ## Without positions -/

/-- Two tokens are the same up to positions. -/
inductive Token.Same : Token → Token → Prop where
  | opening (position other : Position) : Same (.opening position) (.opening other)
  | closing : Same .closing .closing
  | quoteMark : Same .quoteMark .quoteMark
  | atom (datum : Datum) : Same (.atom datum) (.atom datum)

/-- What is open is the same up to positions. -/
inductive Frame.Same : Frame → Frame → Prop where
  | opened (position other : Position) {items others : List Datum}
      (h : items.map Datum.erase = others.map Datum.erase) :
      Same (.opened position items) (.opened other others)
  | quoted : Same .quoted .quoted

/-- An error without its position. -/
def ReadError.unplaced : ReadError → ReadError
  | .unclosedText _ => .unclosedText .unknown
  | .unclosedList _ => .unclosedList .unknown
  | .unexpectedClose => .unexpectedClose

/-- One token leads to the same up to positions. -/
inductive ReadStep.Same : ReadStep → ReadStep → Prop where
  | expression {datum other : Datum} (h : datum.erase = other.erase) :
      Same (.expression datum) (.expression other)
  | more {frames others : List Frame} (h : List.Forall₂ Frame.Same frames others) :
      Same (.more frames) (.more others)
  | failed {error other : ReadError} (h : error.unplaced = other.unplaced) :
      Same (.failed error) (.failed other)

/-- A program without positions. -/
def Program.unplaced (p : Program) : Program where
  expressions := p.expressions.map Datum.erase
  failure := p.failure.map ReadError.unplaced

/-! ## Scanning two texts -/

namespace Token

/-- Whether the scanner is neither in a text between quotes nor in a comment. -/
def Mode.isOutside : Mode → Bool
  | .between => true
  | .number _ => true
  | .symbol _ => true
  | _ => false

variable {source other : String} {s t : Scan} {before tokens : List Token} {c : Char}

theorem Scan.settles_of_isOutside (h : s.mode.isOutside = true)
    (hfinish : s.finish source = .ok tokens) : s.Settles tokens.reverse := by
  cases hmode : s.mode with
  | between =>
    rw [Scan.finish, hmode] at hfinish
    cases hfinish
    rw [List.reverse_reverse]
    exact .between ⟨hmode, rfl⟩
  | number chars =>
    rw [Scan.finish, hmode] at hfinish
    cases hfinish
    rw [List.reverse_reverse]
    exact .number ⟨hmode, rfl⟩
  | symbol chars =>
    rw [Scan.finish, hmode] at hfinish
    cases hfinish
    rw [List.reverse_reverse]
    exact .symbol ⟨hmode, rfl⟩
  | text | escape | comment | commentStar =>
    rw [hmode] at h
    cases h

/-- A scanner is in the same mode as another one, and has found the same tokens after those that it
had found before. -/
structure Scan.Follows (before : List Token) (s t : Scan) : Prop where
  mode : t.mode = s.mode
  tokens : ∃ own, t.tokens = own ++ before ∧ List.Forall₂ Token.Same own s.tokens

theorem Scan.Follows.advance (h : s.Follows before t) (c : Char) :
    (s.advance c).Follows before (t.advance c) := by
  unfold Scan.advance
  split
  · exact ⟨h.mode, h.tokens⟩
  · exact ⟨h.mode, h.tokens⟩

theorem Scan.Follows.become (h : s.Follows before t) (mode : Mode) :
    (s.become mode).Follows before (t.become mode) :=
  ⟨rfl, h.tokens⟩

theorem Scan.Follows.emit (h : s.Follows before t) {token other : Token}
    (htoken : other.Same token) : (s.emit token).Follows before (t.emit other) := by
  obtain ⟨own, htokens, hown⟩ := h.tokens
  exact ⟨h.mode, other :: own, congrArg (other :: ·) htokens, .cons htoken hown⟩

theorem Scan.Follows.start (h : s.Follows before t) (c : Char) :
    (s.start source c).Follows before (t.start other c) := by
  unfold Scan.start
  split_ifs
  · exact (h.emit (.opening _ _)).become _
  · exact (h.emit .closing).become _
  · exact (h.emit .quoteMark).become _
  · exact h.become _
  · exact h.become _
  · exact h.become _
  · exact h.become _

theorem Scan.Follows.take (h : s.Follows before t) (c : Char) :
    (s.take source c).Follows before (t.take other c) := by
  unfold Scan.take
  rw [h.mode]
  cases s.mode with
  | between => exact h.start c
  | number chars =>
    dsimp only
    split
    · exact h.become _
    · exact (h.emit (.atom _)).start c
  | symbol chars =>
    dsimp only
    split_ifs
    · exact h.become _
    · exact (h.emit (.atom _)).start c
    · exact h.become _
  | text chars =>
    dsimp only
    split_ifs
    · exact h.become _
    · exact (h.emit (.atom _)).become _
    · exact h.become _
  | escape chars => exact h.become _
  | comment =>
    dsimp only
    split
    · exact h.become _
    · exact h
  | commentStar =>
    dsimp only
    split
    · exact h.become _
    · exact h.become _

theorem Scan.Follows.step (h : s.Follows before t) (c : Char) :
    (s.step source c).Follows before (t.step other c) :=
  (h.advance c).take c

theorem Scan.Follows.run (h : s.Follows before t) (other : String) (text : List Char) :
    (text.foldl (Scan.step source) s).Follows before (text.foldl (Scan.step other) t) := by
  induction text generalizing s t with
  | nil => exact h
  | cons c text ih => exact ih (h.step c)

theorem Scan.Follows.finish (h : s.Follows before t) (other : String)
    (hs : s.finish source = .ok tokens) :
    ∃ own, t.finish other = .ok (before.reverse ++ own) ∧
      List.Forall₂ Token.Same own tokens := by
  -- the tokens of both are reversed, and the earlier ones come first
  have hreverse {s t : Scan} (h : s.Follows before t) : ∃ own,
      t.tokens.reverse = before.reverse ++ own ∧
        List.Forall₂ Token.Same own s.tokens.reverse := by
    obtain ⟨own, htokens, hown⟩ := h.tokens
    refine ⟨own.reverse, ?_, List.forall₂_reverse_iff.2 hown⟩
    rw [htokens, List.reverse_append]
  unfold Scan.finish at hs ⊢
  rw [h.mode]
  cases hmode : s.mode with
  | number chars =>
    rw [hmode] at hs
    cases hs
    obtain ⟨own, htokens, hown⟩ := hreverse (h.emit (.atom _))
    exact ⟨own, congrArg Except.ok htokens, hown⟩
  | symbol chars =>
    rw [hmode] at hs
    cases hs
    obtain ⟨own, htokens, hown⟩ := hreverse (h.emit (.atom _))
    exact ⟨own, congrArg Except.ok htokens, hown⟩
  | text | escape =>
    rw [hmode] at hs
    cases hs
  | between | comment | commentStar =>
    rw [hmode] at hs
    cases hs
    obtain ⟨own, htokens, hown⟩ := hreverse h
    exact ⟨own, congrArg Except.ok htokens, hown⟩

/-- The tokens of two texts are those of the first, with their positions, and those of the
second. -/
theorem scan_append {first second : String} {others : List Token}
    (hfirst : scan source first = .ok tokens)
    (houtside : (first.toList.foldl (Scan.step source) {}).mode.isOutside = true)
    (hsecond : scan source second = .ok others) :
    ∃ own, scan source (first ++ "\n" ++ second) = .ok (tokens ++ own) ∧
      List.Forall₂ Token.Same own others := by
  have hbetween := (Scan.settles_of_isOutside houtside hfirst).separator source (c := '\n') rfl
  have hfollows : Scan.Follows tokens.reverse {}
      ((first.toList.foldl (Scan.step source) {}).step source '\n') :=
    ⟨hbetween.1, [], hbetween.2, .nil⟩
  obtain ⟨own, hown, hsame⟩ := (hfollows.run source second.toList).finish source hsecond
  refine ⟨own, ?_, hsame⟩
  rw [List.reverse_reverse] at hown
  rw [scan, String.toList_append, String.toList_append, List.foldl_append, List.foldl_append]
  exact hown

/-! ## The grammar -/

/-- Tokens that are one expression: an atom, a quoted expression, or a list of expressions. -/
inductive IsExpression : List Token → Prop where
  | atom (datum : Datum) : IsExpression [.atom datum]
  | quoted {tokens : List Token} (h : IsExpression tokens) : IsExpression (.quoteMark :: tokens)
  | list (position : Position) {items : List (List Token)}
      (h : ∀ tokens ∈ items, IsExpression tokens) :
      IsExpression (.opening position :: (items.flatten ++ [.closing]))

/-- Tokens that are expressions, one after another. -/
def AreExpressions (tokens : List Token) : Prop :=
  ∃ items : List (List Token), tokens = items.flatten ∧ ∀ item ∈ items, IsExpression item

theorem IsExpression.ne_nil (h : IsExpression tokens) : tokens ≠ [] := by
  cases h <;> exact List.cons_ne_nil _ _

end Token

/-! ## Reading without positions -/

namespace Reader

variable {frames others : List Frame} {datum other : Datum}

theorem complete_same (hframes : List.Forall₂ Frame.Same frames others)
    (hdatum : datum.erase = other.erase) :
    (complete frames datum).Same (complete others other) := by
  induction hframes generalizing datum other with
  | nil => exact .expression hdatum
  | cons hframe hframes ih =>
    cases hframe with
    | quoted => exact ih (by simp only [quote, hdatum])
    | opened position position' hitems =>
      refine .more (.cons (.opened _ _ ?_) hframes)
      rw [List.map_cons, List.map_cons, hdatum, hitems]

theorem step_same {token token' : Token} (hframes : List.Forall₂ Frame.Same frames others)
    (htoken : token.Same token') : (step frames token).Same (step others token') := by
  cases htoken with
  | opening position position' => exact .more (.cons (.opened _ _ rfl) hframes)
  | quoteMark => exact .more (.cons .quoted hframes)
  | atom datum => exact complete_same hframes rfl
  | closing =>
    cases hframes with
    | nil => exact .failed rfl
    | cons hframe hframes =>
      cases hframe with
      | quoted => exact .failed rfl
      | opened position position' hitems =>
        refine complete_same hframes ?_
        simp only [Datum.erase, Datum.eraseAll_eq_map, List.map_reverse, hitems]

theorem innermostOpen_same (hframes : List.Forall₂ Frame.Same frames others) :
    (innermostOpen frames).isSome = (innermostOpen others).isSome := by
  induction hframes with
  | nil => rfl
  | cons hframe _ ih =>
    cases hframe with
    | quoted => exact ih
    | opened => rfl

theorem atEnd_same (hframes : List.Forall₂ Frame.Same frames others) :
    (atEnd frames).Same (atEnd others) := by
  have hopen := innermostOpen_same hframes
  unfold atEnd
  cases hframe : innermostOpen frames with
  | none =>
    rw [hframe, eq_comm, Option.isSome_none, Option.isSome_eq_false_iff, Option.isNone_iff_eq_none]
      at hopen
    rw [hopen]
    exact complete_same hframes rfl
  | some position =>
    rw [hframe, eq_comm, Option.isSome_some, Option.isSome_iff_exists] at hopen
    obtain ⟨position', hother⟩ := hopen
    rw [hother]
    exact .failed rfl

end Reader

namespace Program

open Reckoner.Reader

variable {frames others : List Frame} {tokens found : List Token}

/-- Go on with the tokens after an item. -/
def resume (step : ReadStep) (rest : List Token) : Program :=
  match step with
  | .expression datum => (readFrom [] rest).cons datum
  | .more frames => readFrom frames rest
  | .failed error => failed error

theorem readFrom_cons (frames : List Frame) (token : Token) (rest : List Token) :
    readFrom frames (token :: rest) = resume (step frames token) rest := by
  rw [readFrom]
  cases step frames token <;> rfl

theorem readFrom_nil (frame : Frame) (frames : List Frame) :
    readFrom (frame :: frames) [] = resume (atEnd (frame :: frames)) [] := by
  rw [readFrom]
  · cases hend : atEnd (frame :: frames) with
    | expression datum => rfl
    | more next => exact absurd hend (atEnd_ne_more _ next)
    | failed error => rfl
  · simp

theorem unplaced_cons (datum : Datum) (p : Program) :
    (p.cons datum).unplaced = p.unplaced.cons datum.erase := rfl

theorem unplaced_resume {step other : ReadStep} (hstep : step.Same other)
    (hrest : (readFrom [] tokens).unplaced = (readFrom [] found).unplaced)
    (hmore : ∀ frames others, step = .more frames → List.Forall₂ Frame.Same frames others →
      (readFrom frames tokens).unplaced = (readFrom others found).unplaced) :
    (resume step tokens).unplaced = (resume other found).unplaced := by
  cases hstep with
  | expression hdatum => rw [resume, resume, unplaced_cons, unplaced_cons, hrest, hdatum]
  | more hframes => exact hmore _ _ rfl hframes
  | failed herror =>
    rw [resume, resume, failed, failed, unplaced, unplaced, Option.map_some, Option.map_some,
      herror]

/-- What is read does not depend on positions. -/
theorem unplaced_readFrom (hframes : List.Forall₂ Frame.Same frames others)
    (htokens : List.Forall₂ Token.Same tokens found) :
    (readFrom frames tokens).unplaced = (readFrom others found).unplaced := by
  induction htokens generalizing frames others with
  | nil =>
    cases hframes with
    | nil => rfl
    | cons hframe hframes =>
      rw [readFrom_nil, readFrom_nil]
      refine unplaced_resume (atEnd_same (.cons hframe hframes)) rfl fun next _ hend _ => ?_
      exact absurd hend (atEnd_ne_more _ next)
  | cons htoken _ ih =>
    rw [readFrom_cons, readFrom_cons]
    exact unplaced_resume (step_same hframes htoken) (ih .nil) fun _ _ _ hnext => ih hnext

end Program

/-! ## Reading expressions one after another -/

namespace Reader

open Reckoner.Token

theorem ReadsAs.quoted {tokens : List Token} {datum : Datum} (h : ReadsAs tokens datum) :
    ReadsAs (.quoteMark :: tokens) (quote datum) := by
  intro frames rest
  obtain ⟨found, hfound, hread⟩ := h (.quoted :: frames) rest
  refine ⟨quote found, by simp only [quote, hfound], ?_⟩
  rw [List.cons_append, readFrom_cons]
  exact hread

theorem exists_readsItems {items : List (List Token)}
    (h : ∀ tokens ∈ items, ∃ datum, ReadsAs tokens datum) :
    ∃ data, ReadsItems items.flatten data := by
  induction items with
  | nil => exact ⟨[], readsItems_nil⟩
  | cons tokens items ih =>
    obtain ⟨datum, hdatum⟩ := h tokens List.mem_cons_self
    obtain ⟨data, hdata⟩ := ih fun others hmem => h others (List.mem_cons_of_mem _ hmem)
    exact ⟨datum :: data, hdatum.cons_items hdata⟩

/-- The reader follows the grammar. -/
theorem exists_readsAs {tokens : List Token} (h : IsExpression tokens) :
    ∃ datum, ReadsAs tokens datum := by
  induction h with
  | atom datum => exact ⟨datum, readsAs_atom datum⟩
  | quoted _ ih =>
    obtain ⟨datum, hdatum⟩ := ih
    exact ⟨quote datum, hdatum.quoted⟩
  | list position _ ih =>
    obtain ⟨data, hdata⟩ := exists_readsItems ih
    exact ⟨.list none data, hdata.list position none⟩

end Reader

namespace Program

open Reckoner.Reader Reckoner.Token

/-- Expressions are read to their end, and reading goes on as from the start. -/
theorem exists_readFrom_append {tokens : List Token} (h : AreExpressions tokens) :
    ∃ data : List Datum, ∀ rest,
      (readFrom [] (tokens ++ rest)).unplaced =
        { (readFrom [] rest).unplaced with
          expressions := data ++ (readFrom [] rest).unplaced.expressions } := by
  obtain ⟨items, rfl, hitems⟩ := h
  induction items with
  | nil => exact ⟨[], fun rest => rfl⟩
  | cons first items ih =>
    obtain ⟨data, hdata⟩ := ih fun item hmem => hitems item (List.mem_cons_of_mem _ hmem)
    have hfirst := hitems first List.mem_cons_self
    obtain ⟨datum, hreads⟩ := exists_readsAs hfirst
    refine ⟨datum.erase :: data, fun rest => ?_⟩
    obtain ⟨found, hfound, hread⟩ := hreads [] (items.flatten ++ rest)
    rw [List.flatten_cons, List.append_assoc,
      readFrom_eq_cons (.inr (List.append_ne_nil_of_left_ne_nil hfirst.ne_nil _)) hread,
      unplaced_cons, hdata, hfound]
    rfl

end Program

/-- Programs compose.  If the first text ends outside quotes and comments and its tokens are
complete expressions, then two texts with a newline between them hold the expressions of the first
followed by those of the second, and end in the error of the second, up to positions. -/
theorem program_append {source first second : String} {tokens others : List Token}
    (hfirst : Token.scan source first = .ok tokens)
    (houtside : (first.toList.foldl (Token.Scan.step source) {}).mode.isOutside = true)
    (hcomplete : Token.AreExpressions tokens)
    (hsecond : Token.scan source second = .ok others) :
    ∃ found, Token.scan source (first ++ "\n" ++ second) = .ok found ∧
      (Program.ofTokens found).unplaced.expressions =
        (Program.ofTokens tokens).unplaced.expressions ++
          (Program.ofTokens others).unplaced.expressions ∧
      (Program.ofTokens tokens).failure = none ∧
      (Program.ofTokens found).unplaced.failure = (Program.ofTokens others).unplaced.failure := by
  obtain ⟨own, hscan, hsame⟩ := Token.scan_append hfirst houtside hsecond
  obtain ⟨data, hdata⟩ := Program.exists_readFrom_append hcomplete
  have hown : (Program.readFrom [] own).unplaced = (Program.readFrom [] others).unplaced :=
    Program.unplaced_readFrom .nil hsame
  have halone := hdata []
  rw [List.append_nil] at halone
  refine ⟨tokens ++ own, hscan, ?_, ?_, ?_⟩
  · rw [Program.ofTokens, Program.ofTokens, Program.ofTokens, hdata, halone, hown]
    simp [Program.readFrom, Program.unplaced]
  · have hnone := congrArg Program.failure halone
    exact Option.map_eq_none_iff.1 hnone
  · rw [Program.ofTokens, Program.ofTokens, hdata, hown]

/-- The first text ends in a symbol after a comment, the second in an open list. -/
theorem program_append_open_list :
    let tokens := [Token.opening ⟨"t", 1, 1⟩, .atom (.symbol "f"), .quoteMark, .atom (.symbol "a"),
      .closing, .atom (.symbol "c")]
    let others := [Token.atom (.text "d"), .opening ⟨"t", 1, 5⟩, .atom (.symbol "e")]
    Token.scan "t" "(f 'a) /* b */ c" = .ok tokens ∧
      ("(f 'a) /* b */ c".toList.foldl (Token.Scan.step "t") {}).mode.isOutside = true ∧
      Token.AreExpressions tokens ∧ Token.scan "t" "\"d\" (e" = .ok others ∧
      (Program.ofTokens others).failure = some (.unclosedList ⟨"t", 1, 5⟩) ∧
      ∃ found, Token.scan "t" ("(f 'a) /* b */ c" ++ "\n" ++ "\"d\" (e") = .ok found ∧
        (Program.ofTokens found).unplaced.expressions =
          (Program.ofTokens tokens).unplaced.expressions ++
            (Program.ofTokens others).unplaced.expressions ∧
        (Program.ofTokens tokens).failure = none ∧
        (Program.ofTokens found).unplaced.failure =
          (Program.ofTokens others).unplaced.failure := by
  intro tokens others
  have hfirst : Token.scan "t" "(f 'a) /* b */ c" = .ok tokens := by rfl
  have houtside :
      ("(f 'a) /* b */ c".toList.foldl (Token.Scan.step "t") {}).mode.isOutside = true := by rfl
  have hsecond : Token.scan "t" "\"d\" (e" = .ok others := by rfl
  have hcall : ∀ item ∈ [[Token.atom (.symbol "f")], [.quoteMark, .atom (.symbol "a")]],
      Token.IsExpression item := by
    refine List.forall_mem_cons.2 ⟨.atom _, ?_⟩
    exact List.forall_mem_singleton.2 (.quoted (.atom _))
  have hcomplete : Token.AreExpressions tokens := by
    refine ⟨[tokens.take 5, [.atom (.symbol "c")]], rfl, ?_⟩
    refine List.forall_mem_cons.2 ⟨.list ⟨"t", 1, 1⟩ hcall, ?_⟩
    exact List.forall_mem_singleton.2 (.atom _)
  exact ⟨hfirst, houtside, hcomplete, hsecond, rfl,
    program_append hfirst houtside hcomplete hsecond⟩

end Reckoner
