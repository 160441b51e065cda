import Reckoner.Proofs.Reader

/-!
# What the reader has decided stays decided

The reader takes one token after the other.  After some tokens it has read an expression, it has
met a closing parenthesis that closes nothing, or something is open; `Progress` has these three
cases and says of each what tokens that come later can change.  `Reader.step_cases` is one token and
`Reader.progress` a list of them.

Whatever is open can be closed: `resume_closings` counts the closing parentheses that it takes.
-/

namespace Reckoner

namespace Token

/-- Whether a token opens a list. -/
def isOpening : Token → Bool
  | .opening _ => true
  | _ => false

/-- Whether a token closes a list. -/
def isClosing : Token → Bool
  | .closing => true
  | _ => false

/-- The number of lists that some tokens open and do not close. -/
def openLists (tokens : List Token) : ℕ := tokens.countP isOpening - tokens.countP isClosing

end Token

namespace Reader

/-- The number of lists that are open. -/
def depth : List Frame → ℕ
  | [] => 0
  | .opened .. :: frames => depth frames + 1
  | .quoted :: frames => depth frames

theorem innermostOpen_of_depth_pos {frames : List Frame} (h : 0 < depth frames) :
    ∃ position, innermostOpen frames = some position := by
  induction frames with
  | nil => cases h
  | cons frame frames ih =>
    cases frame with
    | opened position items => exact ⟨position, rfl⟩
    | quoted => exact ih h

/-! ## One token -/

/-- A complete item is the whole expression, or goes into the innermost open list. -/
theorem complete_depth (frames : List Frame) (datum : Datum) :
    (∃ whole, complete frames datum = .expression whole) ∨
      ∃ next, complete frames datum = .more next ∧ depth next = depth frames ∧ 0 < depth next := by
  induction frames generalizing datum with
  | nil => exact .inl ⟨datum, rfl⟩
  | cons frame frames ih =>
    cases frame with
    | opened position items => exact .inr ⟨_, rfl, rfl, Nat.succ_pos _⟩
    | quoted => exact ih (quote datum)

/-- One token completes the expression, closes nothing, or leaves something open.  In the last case
the depth changes with the parenthesis that the token is, and a list is open unless there are only
quote marks. -/
theorem step_cases (frames : List Frame) (token : Token) :
    (∃ whole, step frames token = .expression whole) ∨
      step frames token = .failed .unexpectedClose ∨
      ∃ next, step frames token = .more next ∧
        depth next + token.isClosing.toNat = depth frames + token.isOpening.toNat ∧
        (0 < depth frames ∨ token ≠ .quoteMark → 0 < depth next) := by
  cases token with
  | opening position => exact .inr (.inr ⟨_, rfl, rfl, fun _ => Nat.succ_pos _⟩)
  | quoteMark => exact .inr (.inr ⟨_, rfl, rfl, fun h => h.resolve_right fun hne => hne rfl⟩)
  | atom datum =>
    obtain hwhole | ⟨next, hnext, hdepth, hpos⟩ := complete_depth frames datum
    · exact .inl hwhole
    · exact .inr (.inr ⟨next, hnext, hdepth, fun _ => hpos⟩)
  | closing =>
    obtain hfailed | ⟨position, items, outer, rfl, hstep⟩ := step_closing frames
    · exact .inr (.inl hfailed)
    · rw [hstep]
      obtain hwhole | ⟨next, hnext, hdepth, hpos⟩ :=
        complete_depth outer (.list (some position) items.reverse)
      · exact .inl hwhole
      · exact .inr (.inr ⟨next, hnext, congrArg (· + 1) hdepth, fun _ => hpos⟩)

/-! ## A list of tokens -/

/-- How far some tokens bring the reader, whatever comes after them. -/
inductive Progress (frames : List Frame) (tokens : List Token) : Prop where
  | complete (whole : Datum) (rest : List Token)
      (h : ∀ later, readFrom frames (tokens ++ later) = .ok (whole, rest ++ later))
  | refused (h : ∀ later, readFrom frames (tokens ++ later) = .error .unexpectedClose)
  | unfinished (next : List Frame)
      (h : ∀ later, readFrom frames (tokens ++ later) = readFrom next later)
      (hdepth : depth next + tokens.countP Token.isClosing =
        depth frames + tokens.countP Token.isOpening)
      (hpos : 0 < depth frames ∨ (∃ token ∈ tokens, token ≠ .quoteMark) → 0 < depth next)

theorem progress (frames : List Frame) (tokens : List Token) : Progress frames tokens := by
  induction tokens generalizing frames with
  | nil =>
    refine .unfinished frames (fun _ => rfl) rfl ?_
    rintro (hpos | ⟨_, hmem, _⟩)
    · exact hpos
    · exact absurd hmem List.not_mem_nil
  | cons token tokens ih =>
    have hread (later : List Token) : readFrom frames (token :: tokens ++ later) =
        resume (step frames token) (tokens ++ later) :=
      readFrom_cons frames token (tokens ++ later)
    obtain ⟨whole, hstep⟩ | hstep | ⟨next, hstep, hdepth, hpos⟩ := step_cases frames token
    · rw [hstep] at hread
      exact .complete whole tokens hread
    · rw [hstep] at hread
      exact .refused hread
    · rw [hstep] at hread
      cases ih next with
      | complete whole rest h =>
        exact .complete whole rest fun later => (hread later).trans (h later)
      | refused h => exact .refused fun later => (hread later).trans (h later)
      | unfinished last h hdepth' hpos' =>
        refine .unfinished last (fun later => (hread later).trans (h later)) ?_ ?_
        · have hcount (p : Token → Bool) :
              (token :: tokens).countP p = tokens.countP p + (p token).toNat := by
            rw [List.countP_cons]
            cases p token <;> rfl
          rw [hcount, hcount]
          omega
        · rintro (hframes | ⟨other, hmem, hother⟩)
          · exact hpos' (.inl (hpos (.inl hframes)))
          · rcases List.mem_cons.1 hmem with rfl | hmem
            · exact hpos' (.inl (hpos (.inr hother)))
            · exact hpos' (.inr ⟨other, hmem, hother⟩)

/-! ## Completing what is open -/

/-- After an item, as many closing parentheses as lists are open complete the expression. -/
theorem resume_closings (frames : List Frame) (datum : Datum) :
    ∃ whole, resume (complete frames datum) (List.replicate (depth frames) .closing) =
      .ok (whole, []) := by
  induction frames generalizing datum with
  | nil => exact ⟨datum, rfl⟩
  | cons frame frames ih =>
    cases frame with
    | quoted => exact ih (quote datum)
    | opened position items =>
      obtain ⟨whole, hwhole⟩ := ih (.list (some position) (datum :: items).reverse)
      refine ⟨whole, ?_⟩
      rw [depth, List.replicate_succ, complete, resume, readFrom_cons]
      exact hwhole

/-- The verdict of the reader on tokens that are not only quote marks.  An expression stays the same
expression and a closing parenthesis that closes nothing stays an error, whatever comes later.  A
list that is not closed can be completed, by any atom and as many closing parentheses as lists are
open. -/
theorem verdict_stable {tokens : List Token} (htokens : ∃ token ∈ tokens, token ≠ .quoteMark) :
    (∀ datum rest, readFrom [] tokens = .ok (datum, rest) →
      ∀ later, readFrom [] (tokens ++ later) = .ok (datum, rest ++ later)) ∧
    (readFrom [] tokens = .error .unexpectedClose →
      ∀ later, readFrom [] (tokens ++ later) = .error .unexpectedClose) ∧
    ∀ position, readFrom [] tokens = .error (.unclosedList position) →
      0 < Token.openLists tokens ∧
      ∀ datum, ∃ whole,
        readFrom [] (tokens ++ .atom datum :: List.replicate (Token.openLists tokens) .closing) =
          .ok (whole, []) := by
  cases progress [] tokens with
  | complete whole rest h =>
    have hnow := h []
    rw [List.append_nil, List.append_nil] at hnow
    rw [hnow]
    refine ⟨fun datum rest' heq => ?_, fun heq => ?_, fun position heq => ?_⟩
    · cases heq
      exact h
    · cases heq
    · cases heq
  | refused h =>
    have hnow := h []
    rw [List.append_nil] at hnow
    rw [hnow]
    refine ⟨fun datum rest heq => ?_, fun _ => h, fun position heq => ?_⟩
    · cases heq
    · cases heq
  | unfinished next h hdepth hpos =>
    have hopen : 0 < depth next := hpos (.inr htokens)
    have hcount : Token.openLists tokens = depth next := by
      rw [depth] at hdepth
      rw [Token.openLists]
      omega
    obtain ⟨position, hposition⟩ := innermostOpen_of_depth_pos hopen
    have hnow : readFrom [] tokens = .error (.unclosedList position) := by
      have hend := h []
      rw [List.append_nil, readFrom, atEnd, hposition] at hend
      exact hend
    rw [hnow, hcount]
    refine ⟨fun datum rest heq => ?_, fun heq => ?_, fun _ _ => ⟨hopen, fun datum => ?_⟩⟩
    · cases heq
    · cases heq
    · obtain ⟨whole, hwhole⟩ := resume_closings next datum
      refine ⟨whole, ?_⟩
      rw [h, readFrom_cons]
      exact hwhole

/-- A quote mark after an expression, before a closing parenthesis, and in two open lists. -/
theorem verdict_stable_quote_marks :
    let outer : Position := ⟨"t", 1, 1⟩
    let inner : Position := ⟨"t", 1, 2⟩
    let after : List Token := [.opening outer, .closing, .quoteMark]
    let before : List Token := [.opening outer, .quoteMark, .closing]
    let inside : List Token := [.opening outer, .opening inner, .quoteMark]
    (readFrom [] after = .ok (.list (some outer) [], [.quoteMark]) ∧
      ∀ later, readFrom [] (after ++ later) =
        .ok (.list (some outer) [], [.quoteMark] ++ later)) ∧
    (readFrom [] before = .error .unexpectedClose ∧
      ∀ later, readFrom [] (before ++ later) = .error .unexpectedClose) ∧
    readFrom [] inside = .error (.unclosedList inner) ∧ Token.openLists inside = 2 ∧
      ∃ whole, readFrom [] (inside ++ .atom (.symbol "a") :: List.replicate 2 .closing) =
        .ok (whole, []) := by
  intro outer inner after before inside
  have hopening (rest : List Token) : ∃ token ∈ .opening outer :: rest, token ≠ .quoteMark :=
    ⟨.opening outer, List.mem_cons_self, by simp⟩
  have hread : readFrom [] after = .ok (.list (some outer) [], [.quoteMark]) := rfl
  have hrefused : readFrom [] before = .error .unexpectedClose := rfl
  have hopen : readFrom [] inside = .error (.unclosedList inner) := rfl
  refine ⟨⟨hread, (verdict_stable (hopening _)).1 _ _ hread⟩,
    ⟨hrefused, (verdict_stable (hopening _)).2.1 hrefused⟩, hopen, rfl, ?_⟩
  exact ((verdict_stable (hopening _)).2.2 inner hopen).2 (.symbol "a")

end Reader

end Reckoner
