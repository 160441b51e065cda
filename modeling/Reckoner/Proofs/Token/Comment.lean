import Mathlib.Data.List.DropRight
import Reckoner.Proofs.Program

/-!
# Comments

A comment that is closed leaves no trace in the tokens: what comes after it is scanned as if the
text started there, up to positions.

Inside a comment the scanner takes stars in pairs, because the character after a star is consumed
with it.  So a comment ends at the first star and slash that stand together only if the number of
stars directly before them is even.  If it is odd, the star is taken together with the one before
it, and the comment goes on.  `Scan.At.comment_body` keeps the parity along the text of a comment.
-/

namespace Reckoner.Token

variable {source : String} {s t : Scan} {mode : Mode} {tokens : List Token}

/-! ## The same result up to positions -/

/-- Two texts have the same tokens, or the same error, up to positions. -/
inductive SameResult :
    Except ReadError (List Token) → Except ReadError (List Token) → Prop where
  | ok {tokens others : List Token} (h : List.Forall₂ Token.Same tokens others) :
      SameResult (.ok tokens) (.ok others)
  | error {error other : ReadError} (h : error.unplaced = other.unplaced) :
      SameResult (.error error) (.error other)

theorem Scan.At.follows (hs : s.At mode []) (ht : t.At mode []) : s.Follows [] t := by
  refine ⟨ht.1.trans hs.1.symm, [], ht.2, ?_⟩
  rw [hs.2]
  exact .nil

theorem Scan.Follows.sameResult (h : s.Follows [] t) :
    SameResult (t.finish source) (s.finish source) := by
  cases hs : s.finish source with
  | ok tokens =>
    obtain ⟨own, hown, hsame⟩ := h.finish source hs
    rw [hown]
    exact .ok hsame
  | error error =>
    unfold Scan.finish at hs ⊢
    rw [h.mode]
    cases hmode : s.mode with
    | text | escape =>
      rw [hmode] at hs
      cases hs
      exact .error rfl
    | between | number | symbol | comment | commentStar =>
      rw [hmode] at hs
      cases hs

/-! ## Inside a comment -/

theorem Scan.At.comment_step (h : s.At .comment tokens) (source : String) (c : Char) :
    (s.step source c).At (if c = '*' then .commentStar else .comment) tokens := by
  simp only [Scan.step, Scan.take, (h.advance c).1]
  split
  · exact (h.advance c).become _
  · exact h.advance c

theorem Scan.At.commentStar_step (h : s.At .commentStar tokens) (source : String) (c : Char) :
    (s.step source c).At (if c = '/' then .between else .comment) tokens := by
  simp only [Scan.step, Scan.take, (h.advance c).1]
  split
  · exact (h.advance c).become _
  · exact (h.advance c).become _

theorem Scan.At.comment_open (h : s.At .between tokens) (source : String) :
    ("/*".toList.foldl (Scan.step source) s).At .comment tokens := by
  have hslash : (s.step source '/').At (.symbol ['/']) tokens := by
    rw [step_between h, start_word (by decide)]
    exact (h.advance _).become _
  have hstar := hslash.advance '*'
  change ((s.step source '/').step source '*').At .comment tokens
  rw [Scan.step, Scan.take, hstar.1]
  exact hstar.become _

/-- The number of stars at the end of a text. -/
def lastStars (text : List Char) : ℕ := (text.rtakeWhile (· == '*')).length

theorem even_lastStars_star (text : List Char) :
    Even (lastStars (text ++ ['*'])) ↔ ¬Even (lastStars text) := by
  rw [lastStars, List.rtakeWhile_concat_pos _ _ _ (by decide), List.length_append, ← lastStars]
  exact Nat.even_add_one

theorem lastStars_other (text : List Char) {c : Char} (hc : c ≠ '*') :
    lastStars (text ++ [c]) = 0 := by
  rw [lastStars, List.rtakeWhile_concat_neg _ _ _ (by simpa using hc), List.length_nil]

theorem exists_of_lastStars_ne_zero {text : List Char} (h : lastStars text ≠ 0) :
    ∃ front, text = front ++ ['*'] := by
  obtain rfl | ⟨front, c, rfl⟩ := text.eq_nil_or_concat'
  · exact absurd rfl h
  · by_cases hc : c = '*'
    · exact ⟨front, by rw [hc]⟩
    · exact absurd (lastStars_other front hc) h

/-- The mode of the scanner in a comment that it has not left. -/
def insideComment (text : List Char) : Mode :=
  if Even (lastStars text) then .comment else .commentStar

/-- The scanner does not leave a comment before a star and a slash stand together. -/
theorem Scan.At.comment_body {body : List Char} (h : s.At .comment tokens)
    (hbody : ¬"*/".toList <:+: body) :
    (body.foldl (Scan.step source) s).At (insideComment body) tokens := by
  induction body using List.reverseRecOn with
  | nil => exact h
  | append_singleton body c ih =>
    have hmode := ih fun hpair => hbody (hpair.trans (List.prefix_append body [c]).isInfix)
    rw [List.foldl_append, List.foldl_cons, List.foldl_nil]
    by_cases heven : Even (lastStars body)
    · rw [insideComment, if_pos heven] at hmode
      have hstep := hmode.comment_step source c
      by_cases hstar : c = '*'
      · have hodd : ¬Even (lastStars (body ++ [c])) := by
          rw [hstar, even_lastStars_star]
          exact not_not.2 heven
        rw [if_pos hstar] at hstep
        rwa [insideComment, if_neg hodd]
      · rw [if_neg hstar] at hstep
        rwa [insideComment, lastStars_other body hstar, if_pos Even.zero]
    · rw [insideComment, if_neg heven] at hmode
      -- an odd number of stars is not zero, so a slash would make the pair
      have hslash : c ≠ '/' := by
        rintro rfl
        obtain ⟨front, rfl⟩ := exists_of_lastStars_ne_zero fun hzero => heven (hzero ▸ Even.zero)
        exact hbody ⟨front, [], by simp⟩
      have hnext : Even (lastStars (body ++ [c])) := by
        by_cases hstar : c = '*'
        · rw [hstar, even_lastStars_star]
          exact heven
        · rw [lastStars_other body hstar]
          exact Even.zero
      have hstep := hmode.commentStar_step source c
      rw [if_neg hslash] at hstep
      rwa [insideComment, if_pos hnext]

/-- Where a star and a slash after the text of a comment lead. -/
theorem Scan.At.comment_close {body : List Char} (h : s.At (insideComment body) tokens)
    (source : String) :
    ("*/".toList.foldl (Scan.step source) s).At
      (if Even (lastStars body) then .between else .comment) tokens := by
  change ((s.step source '*').step source '/').At _ _
  by_cases heven : Even (lastStars body)
  · rw [insideComment, if_pos heven] at h
    rw [if_pos heven]
    exact (h.comment_step source '*').commentStar_step source '/'
  · rw [insideComment, if_neg heven] at h
    rw [if_neg heven]
    exact (h.commentStar_step source '*').comment_step source '/'

/-! ## Comments in front of a text -/

/-- After a comment the scanner is where its last stars have brought it. -/
theorem Scan.at_comment (source : String) {body : String}
    (hbody : ¬"*/".toList <:+: body.toList) :
    (("/*" ++ body ++ "*/").toList.foldl (Scan.step source) {}).At
      (if Even (lastStars body.toList) then .between else .comment) [] := by
  have hstart : Scan.At {} .between [] := ⟨rfl, rfl⟩
  rw [String.toList_append, String.toList_append, List.foldl_append, List.foldl_append]
  exact ((hstart.comment_open source).comment_body hbody).comment_close source

/-- Texts with different beginnings that leave the scanner in one mode, without a token, go on
alike. -/
theorem scan_append_same (first second rest : String)
    (hfirst : (first.toList.foldl (Scan.step source) {}).At mode [])
    (hsecond : (second.toList.foldl (Scan.step source) {}).At mode []) :
    SameResult (scan source (first ++ rest)) (scan source (second ++ rest)) := by
  rw [scan, scan, String.toList_append, String.toList_append, List.foldl_append, List.foldl_append]
  exact ((hsecond.follows hfirst).run source rest.toList).sameResult

theorem scan_even_comment {body : String} (hbody : ¬"*/".toList <:+: body.toList)
    (heven : Even (lastStars body.toList)) (source rest : String) :
    SameResult (scan source ("/*" ++ body ++ "*/" ++ rest)) (scan source rest) := by
  have hcomment := Scan.at_comment source hbody
  rw [if_pos heven] at hcomment
  have hsame := scan_append_same _ "" rest hcomment ⟨rfl, rfl⟩
  rwa [String.empty_append] at hsame

theorem scan_odd_comment {body : String} (hbody : ¬"*/".toList <:+: body.toList)
    (hodd : ¬Even (lastStars body.toList)) (source rest : String) :
    SameResult (scan source ("/*" ++ body ++ "*/" ++ rest)) (scan source ("/*" ++ rest)) := by
  have hcomment := Scan.at_comment source hbody
  rw [if_neg hodd] at hcomment
  exact scan_append_same _ "/*" rest hcomment (Scan.At.comment_open ⟨rfl, rfl⟩ source)

/-- A comment is skipped, whatever comes after it, exactly if it ends in an even number of stars
before the star and the slash that close it.  If it ends in an odd number of stars, it goes on after
them as if it had just been opened. -/
theorem comment_skipped_iff {source body : String} (hbody : ¬"*/".toList <:+: body.toList) :
    ((∀ rest, SameResult (scan source ("/*" ++ body ++ "*/" ++ rest)) (scan source rest)) ↔
      Even (lastStars body.toList)) ∧
    (¬Even (lastStars body.toList) → ∀ rest,
      SameResult (scan source ("/*" ++ body ++ "*/" ++ rest)) (scan source ("/*" ++ rest))) := by
  refine ⟨⟨fun hskipped => ?_, fun heven => scan_even_comment hbody heven source⟩,
    fun hodd => scan_odd_comment hbody hodd source⟩
  by_contra hodd
  have hopen := scan_odd_comment hbody hodd source "a"
  have hclosed := hskipped "a"
  have hnothing : scan source ("/*" ++ "a") = .ok [] := by rfl
  have hsymbol : scan source "a" = .ok [.atom (.symbol "a")] := by rfl
  rw [hnothing] at hopen
  rw [hsymbol] at hclosed
  generalize scan source ("/*" ++ body ++ "*/" ++ "a") = result at hopen hclosed
  cases hopen with
  | ok hnone =>
    cases hnone
    cases hclosed with
    | ok hsome => cases hsome

/-- A star, a slash and two stars inside a comment, and a text that is not closed after it. -/
theorem comment_skipped_iff_two_stars :
    ¬"*/".toList <:+: "* / **".toList ∧
      SameResult (scan "t" ("/*" ++ "* / **" ++ "*/" ++ "\"a")) (scan "t" "\"a") ∧
      scan "t" "\"a" = .error (.unclosedText ⟨"t", 1, 2⟩) := by
  have hbody : ¬"*/".toList <:+: "* / **".toList := by decide
  exact ⟨hbody, (comment_skipped_iff hbody).1.2 ⟨1, rfl⟩ "\"a", rfl⟩

/-- A comment with one star before its end is not skipped. -/
theorem not_comment_skipped :
    ¬∀ source body rest : String, ¬"*/".toList <:+: body.toList →
      SameResult (scan source ("/*" ++ body ++ "*/" ++ rest)) (scan source rest) := by
  intro hskipped
  have hstar := hskipped "t" "*" "5" (by decide)
  have hnothing : scan "t" ("/*" ++ "*" ++ "*/" ++ "5") = .ok [] := by rfl
  have hfive : scan "t" "5" = .ok [.atom (.number (.int64 5))] := by rfl
  rw [hnothing, hfive] at hstar
  cases hstar with
  | ok hsame => cases hsame

end Reckoner.Token
