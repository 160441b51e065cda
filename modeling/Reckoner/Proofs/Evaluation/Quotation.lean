import Reckoner.Proofs.Evaluation.Application
import Reckoner.Proofs.Evaluation.ReadBack
import Reckoner.Proofs.Evaluation.Unplaced
import Reckoner.Proofs.Program
import Reckoner.Proofs.Reader.Verdict

/-!
# The two notations for quoting

A quote mark and a list with the name `quote` mean the same.  The reader removes the positions after
a quote mark; those in a list stay until it is evaluated, and are removed then.

`spells_of_readFrom` takes a text that is read as one expression on its own into any context: after
any tokens, and before a parenthesis that closes a list around it.  `Reader.readFrom_within` is the
part of it that is about the reader: what is open around an expression plays no role until the
expression is complete.
-/

namespace Reckoner

/-! ## Reading with more open around -/

/-- What a token leads to when more is open around. -/
def ReadStep.within (outer : List Frame) : ReadStep → ReadStep
  | .expression datum => Reader.complete outer datum
  | .more frames => .more (frames ++ outer)
  | .failed error => .failed error

namespace Reader

open Reckoner.Token (Same)

variable {frames others : List Frame} {tokens own : List Token} {datum : Datum}

theorem complete_append (frames outer : List Frame) (datum : Datum) :
    complete (frames ++ outer) datum = (complete frames datum).within outer := by
  induction frames generalizing datum with
  | nil => rfl
  | cons frame frames ih =>
    cases frame with
    | quoted => exact ih (quote datum)
    | opened position items => rfl

/-- A closing parenthesis that closes nothing could close a list around. -/
theorem step_append {token : Token} (h : ∀ error, step frames token ≠ .failed error)
    (outer : List Frame) : step (frames ++ outer) token = (step frames token).within outer := by
  cases token with
  | opening position => rfl
  | quoteMark => rfl
  | atom datum => exact complete_append frames outer datum
  | closing =>
    obtain hfailed | ⟨position, items, inner, rfl, hstep⟩ := step_closing frames
    · exact absurd hfailed (h _)
    · rw [hstep]
      exact complete_append inner outer _

/-- Tokens that are read as one expression are read as the same one, up to positions, whatever is
open around it and whatever comes after it. -/
theorem readFrom_within (hframes : List.Forall₂ Frame.Same others frames)
    (htokens : List.Forall₂ Same own tokens)
    (hsome : 0 < depth frames ∨ ∃ token ∈ tokens, token ≠ .quoteMark)
    (hread : readFrom frames tokens = .ok (datum, [])) (outer : List Frame) (later : List Token) :
    ∃ found : Datum, found.erase = datum.erase ∧
      readFrom (others ++ outer) (own ++ later) = resume (complete outer found) later := by
  -- the induction is on the tokens; a list that is open, or a token still to come, is what keeps
  -- the expression from ending with the text
  induction htokens generalizing frames others with
  | nil =>
    obtain hdepth | ⟨_, hmem, _⟩ := hsome
    · obtain ⟨position, hopen⟩ := innermostOpen_of_depth_pos hdepth
      rw [readFrom, atEnd, hopen] at hread
      cases hread
    · exact absurd hmem List.not_mem_nil
  | @cons mine token own tokens htoken htokens ih =>
    have hsame := step_same hframes htoken
    rw [readFrom_cons] at hread
    rw [List.cons_append, readFrom_cons]
    generalize hmine : step others mine = result at hsame
    obtain ⟨whole, hstep⟩ | hstep | ⟨next, hstep, _, hdepth⟩ := step_cases frames token
    · rw [hstep] at hread hsame
      cases hread
      cases htokens
      cases hsame with
      | expression herase =>
        rw [step_append (by simp [hmine]), hmine]
        exact ⟨_, herase, rfl⟩
    · rw [hstep] at hread
      cases hread
    · rw [hstep] at hread hsame
      cases hsame with
      | more hnext =>
        rw [step_append (by simp [hmine]), hmine]
        refine ih hnext ?_ hread
        obtain hpos | ⟨other, hmem, hother⟩ := hsome
        · exact .inl (hdepth (.inl hpos))
        · obtain rfl | hmem := List.mem_cons.1 hmem
          · exact .inl (hdepth (.inr hother))
          · exact .inr ⟨other, hmem, hother⟩

end Reader

section

open Token

variable {source text : String} {tokens : List Token} {datum : Datum}

/-- A text that ends outside quotes and comments and is read as one expression spells it. -/
theorem spells_of_readFrom (hscan : scan source text = .ok tokens)
    (houtside : (text.toList.foldl (Scan.step source) {}).mode.isOutside = true)
    (hread : Reader.readFrom [] tokens = .ok (datum, []))
    (hsome : ∃ token ∈ tokens, token ≠ .quoteMark) : Spells text.toList datum := by
  intro other s before hs
  have hfollows : Scan.Follows before {} s := ⟨hs.1, [], hs.2, .nil⟩
  have hrun : Scan.Follows before (text.toList.foldl (Scan.step source) {}) _ :=
    hfollows.run other text.toList
  obtain ⟨own, hfinish, hsame⟩ := hrun.finish other hscan
  refine ⟨own, Reader.readFrom_within .nil hsame (.inr hsome) hread, ?_⟩
  rw [← hrun.mode] at houtside
  have hsettles := Scan.settles_of_isOutside houtside hfinish
  rwa [List.reverse_append, List.reverse_reverse] at hsettles

theorem Spells.quoted {chars : List Char} (h : Spells chars datum) :
    Spells ('\x27' :: chars) (Reader.quote datum) := by
  intro source s before hs
  have hmark : (s.step source '\x27').At .between (.quoteMark :: before) := by
    rw [step_between hs]
    exact (hs.advance _).emit _ _
  obtain ⟨own, hreads, hsettles⟩ := h source _ _ hmark
  refine ⟨.quoteMark :: own, hreads.quoted, ?_⟩
  rwa [List.reverse_cons, List.append_assoc]

end

/-! ## Quoted values -/

namespace Datum

theorem erase_erase (x : Datum) : x.erase.erase = x.erase := by
  induction x using inductionOn with
  | list position items ih =>
    rw [erase, eraseAll_eq_map, erase, eraseAll_eq_map, List.map_map]
    exact congrArg (Datum.list none) (List.map_congr_left ih)
  | closure parameters body scope =>
    have herase : (closure parameters body scope).erase = _ := erase_of_ne_list (by simp)
    rw [herase, herase]
  | other x hlist hclosure => rw [erase_of_ne_list hlist, erase_of_ne_list hlist]

/-- There are no functions in what is read, and so no position is left. -/
theorem Plain.isUnplaced_erase {x : Datum} (h : x.Plain) : x.erase.isUnplaced = true := by
  induction h with
  | nil => rfl
  | atom h =>
    rw [h.erase_eq]
    cases h <;> rfl
  | @list position items _ ih =>
    rw [Datum.erase, eraseAll_eq_map, isUnplaced, areUnplaced_eq_true ?_]
    · rfl
    · intro item hmem
      obtain ⟨inner, hinner, rfl⟩ := List.mem_map.1 hmem
      exact ih inner hinner

end Datum

namespace Session

open Reckoner.Action

/-- A line that spells a quoted datum has the datum without its positions as its value, and changes
nothing. -/
theorem evalLine_of_spells {line : String} {datum : Datum}
    (h : Spells line.toList (.ofList [.symbol "quote", datum])) (scope : ScopeId)
    (i : Interpreter) :
    ∃ expression, Datum.read promptSource line = .ok expression ∧
      (eval expression scope).runFrom i = (.ok datum.erase, i) ∧
      (evalLine line scope).runFrom i = (.ok (i.serialize scope datum.erase), i) := by
  obtain ⟨tokens, expression, hscan, hfrom, herase⟩ := read_of_spells h promptSource
  have hread : Datum.read promptSource line = .ok expression :=
    Datum.read_eq_ok_iff.2 ⟨tokens, [], hscan, hfrom⟩
  obtain ⟨position, item, rfl, hitem⟩ := Datum.exists_call_of_erase_eq herase
  have heval : (eval (.list position [.symbol "quote", item]) scope).runFrom i =
      (.ok datum.erase, i) := by
    have hlimit : depthLimit = 999999999999 + 1 := rfl
    rw [eval, unlimited, hlimit, Evaluation.eval_quote, hitem, runFrom_pure]
  have hcheck : (check (.list position [.symbol "quote", item])).runFrom i = (.ok .any, i) := by
    rw [check, runFrom_get_bind, Datum.infer, runFrom_ofExcept_ok]
  refine ⟨_, hread, heval, ?_⟩
  rw [evalLine, read, hread, runFrom_bind_ok (runFrom_ofExcept_ok _ _ _), runFrom_bind_ok hcheck,
    runFrom_bind_ok heval, runFrom_get_bind, runFrom_pure]

/-- The two notations for quoting agree.  If a text ends outside quotes and comments and is read as
one expression to its end, and is not made of quote marks alone, then it can be quoted with a mark
in front and with a list around it.  From every state both lines have the expression without its
positions as their value, answer with its text and leave the state as it is. -/
theorem quote_notations_agree {text : String} {tokens : List Token} {datum : Datum}
    (hscan : Token.scan promptSource text = .ok tokens)
    (houtside : (text.toList.foldl (Token.Scan.step promptSource) {}).mode.isOutside = true)
    (hread : Reader.readFrom [] tokens = .ok (datum, []))
    (hsome : ∃ token ∈ tokens, token ≠ .quoteMark) (scope : ScopeId) (i : Interpreter) :
    ∃ marked listed,
      Datum.read promptSource ("'" ++ text) = .ok marked ∧
      Datum.read promptSource ("(quote " ++ text ++ ")") = .ok listed ∧
      (eval marked scope).runFrom i = (.ok datum.erase, i) ∧
      (eval listed scope).runFrom i = (.ok datum.erase, i) ∧
      datum.erase.isUnplaced = true ∧
      (evalLine ("'" ++ text) scope).runFrom i = (.ok (i.serialize scope datum.erase), i) ∧
      (evalLine ("(quote " ++ text ++ ")") scope).runFrom i =
        (.ok (i.serialize scope datum.erase), i) := by
  have hspells := spells_of_readFrom hscan houtside hread hsome
  have hplain : datum.Plain :=
    Datum.of_read Reader.closed_plain (fun _ => .atom)
      (Datum.read_eq_ok_iff.2 ⟨tokens, [], hscan, hread⟩)
  have hmarked : Spells ("'" ++ text).toList (.ofList [.symbol "quote", datum.erase]) := by
    rw [String.toList_append]
    exact hspells.quoted
  have hlisted : Spells ("(quote " ++ text ++ ")").toList
      (.ofList [.symbol "quote", datum]) := by
    have hopening : "(quote " = "(" ++ "quote" ++ " " := by decide
    rw [hopening]
    exact spells_call Reader.symbolChars_quote hspells
  obtain ⟨marked, hreadMarked, hevalMarked, hlineMarked⟩ := evalLine_of_spells hmarked scope i
  obtain ⟨listed, hreadListed, hevalListed, hlineListed⟩ := evalLine_of_spells hlisted scope i
  rw [Datum.erase_erase] at hevalMarked hlineMarked
  exact ⟨marked, listed, hreadMarked, hreadListed, hevalMarked, hevalListed,
    hplain.isUnplaced_erase, hlineMarked, hlineListed⟩

/-- A quoted list before a comment. -/
theorem quote_notations_agree_comment :
    let tokens : List Token := [.quoteMark, .opening ⟨promptSource, 1, 2⟩, .atom (.symbol "a"),
      .atom (.number (.int64 (-7))), .closing]
    let datum := Reader.quote (.ofList [.symbol "a", .number (.int64 (-7))])
    Token.scan promptSource "'(a -7) /* b */" = .ok tokens ∧
      ("'(a -7) /* b */".toList.foldl (Token.Scan.step promptSource) {}).mode.isOutside = true ∧
      Reader.readFrom [] tokens = .ok (datum, []) ∧ (∃ token ∈ tokens, token ≠ .quoteMark) ∧
      (evalLine ("'" ++ "'(a -7) /* b */") globalScope).runFrom .initial =
        (.ok "(quote (a -7))", .initial) ∧
      (evalLine ("(quote " ++ "'(a -7) /* b */" ++ ")") globalScope).runFrom .initial =
        (.ok "(quote (a -7))", .initial) := by
  intro tokens datum
  have hscan : Token.scan promptSource "'(a -7) /* b */" = .ok tokens := by rfl
  have houtside :
      ("'(a -7) /* b */".toList.foldl (Token.Scan.step promptSource) {}).mode.isOutside = true := by
    rfl
  have hread : Reader.readFrom [] tokens = .ok (datum, []) := by rfl
  have hsome : ∃ token ∈ tokens, token ≠ .quoteMark :=
    ⟨.opening ⟨promptSource, 1, 2⟩, List.mem_cons_of_mem _ List.mem_cons_self, by simp⟩
  have htext : Interpreter.initial.serialize globalScope datum.erase = "(quote (a -7))" := by rfl
  obtain ⟨_, _, _, _, _, _, _, hmarked, hlisted⟩ :=
    quote_notations_agree hscan houtside hread hsome globalScope .initial
  rw [htext] at hmarked hlisted
  exact ⟨hscan, houtside, hread, hsome, hmarked, hlisted⟩

end Session

end Reckoner
