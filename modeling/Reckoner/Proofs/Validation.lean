import Reckoner.Proofs.Datum.Blur
import Reckoner.Proofs.Evaluation.Activity
import Reckoner.Validation

/-!
# What checking an expression protects

The check and the evaluation go through an expression in different ways.  `Datum.Stands` lists the
places of an expression that an evaluation may come to, and `Datum.Visits` those that the check
looks at: all but the heads of calls.

* `Starts.stands` says that there are no other places: what the evaluation of a list evaluates next
  stands in it, unless it is the body of a function that the list applies.
* `Datum.Visits.infer_ok` says that what the check accepts is acceptable wherever it looks.
* `infer_protects` puts the two together: of the declared functions that an expression calls by
  their names, all get as many arguments as declared, except for calls inside the head of a call.
-/

namespace Reckoner

namespace Datum

/-- An expression stands in another, at a place where it may be evaluated.  Quoted data and the
parameters of a function are no such places. -/
inductive Stands : Datum → Datum → Prop where
  | here (x : Datum) : Stands x x
  | argument {position : Option Position} {head a y : Datum} {arguments : List Datum}
      (hquote : head ≠ .symbol "quote") (hlambda : head ≠ .symbol "lambda") (ha : a ∈ arguments)
      (h : Stands a y) : Stands (.list position (head :: arguments)) y
  | body {position : Option Position} {parameters body y : Datum} (h : Stands body y) :
      Stands (.list position [.symbol "lambda", parameters, body]) y
  | head {position : Option Position} {head y : Datum} {arguments : List Datum}
      (h : Stands head y) : Stands (.list position (head :: arguments)) y

/-- An expression stands in another, and not inside the head of a list. -/
inductive Visits : Datum → Datum → Prop where
  | here (x : Datum) : Visits x x
  | argument {position : Option Position} {head a y : Datum} {arguments : List Datum}
      (hquote : head ≠ .symbol "quote") (hlambda : head ≠ .symbol "lambda") (ha : a ∈ arguments)
      (h : Visits a y) : Visits (.list position (head :: arguments)) y
  | body {position : Option Position} {parameters body y : Datum} (h : Visits body y) :
      Visits (.list position [.symbol "lambda", parameters, body]) y

/-- An expression stands inside the head of a list that stands in another one. -/
def StandsInHead (x y : Datum) : Prop :=
  ∃ position head arguments, x.Visits (.list position (head :: arguments)) ∧ head.Stands y

variable {x y head : Datum} {position : Option Position} {arguments : List Datum}
  {c : Catalogue}

theorem Visits.stands_of (h : x.Visits y) {z : Datum} (hz : y.Stands z) : x.Stands z := by
  induction h with
  | here => exact hz
  | argument hquote hlambda ha _ ih => exact .argument hquote hlambda ha (ih hz)
  | body _ ih => exact .body (ih hz)

theorem StandsInHead.stands (h : x.StandsInHead y) : x.Stands y := by
  obtain ⟨position, head, arguments, hvisits, hstands⟩ := h
  exact hvisits.stands_of (.head hstands)

/-- A place is looked at, or it is inside a head: the outermost one on the way to it. -/
theorem Stands.visits_or (h : x.Stands y) : x.Visits y ∨ x.StandsInHead y := by
  induction h with
  | here x => exact .inl (.here x)
  | argument hquote hlambda ha _ ih =>
    rcases ih with h | ⟨position, head, arguments, h, hhead⟩
    · exact .inl (.argument hquote hlambda ha h)
    · exact .inr ⟨position, head, arguments, .argument hquote hlambda ha h, hhead⟩
  | body _ ih =>
    rcases ih with h | ⟨position, head, arguments, h, hhead⟩
    · exact .inl (.body h)
    · exact .inr ⟨position, head, arguments, .body h, hhead⟩
  | head h => exact .inr ⟨_, _, _, .here _, h⟩

theorem Stands.eq_symbol {name : String} (h : (Datum.symbol name).Stands y) : y = .symbol name := by
  cases h
  rfl

/-! ## The check -/

theorem infer_ok_of_checkArguments {place : Position} {d : Option Declaration} {index : ℕ}
    (h : checkArguments c place d index arguments = .ok ()) :
    ∀ a ∈ arguments, ∃ type, a.infer c = .ok type := by
  induction arguments generalizing index with
  | nil => exact fun a ha => absurd ha List.not_mem_nil
  | cons argument rest ih =>
    rw [checkArguments] at h
    cases hfound : argument.infer c with
    | error r =>
      rw [hfound] at h
      cases h
    | ok found =>
      have hrest : checkArguments c place d (index + 1) rest = .ok () := by
        rw [hfound] at h
        cases d with
        | none => exact h
        | some d =>
          by_cases hfits : found.fits (d.argumentType index) = true
          · exact (if_pos hfits).symm.trans h
          · cases (if_neg hfits).symm.trans h
      intro a ha
      rcases List.mem_cons.1 ha with rfl | ha
      · exact ⟨found, hfound⟩
      · exact ih hrest a ha

theorem bounds_of_checkCount {place : Position} {d : Declaration} {count : ℕ}
    (h : checkCount place (some d) count = .ok ()) : d.least ≤ count ∧ (count : ℤ) ≤ d.most := by
  unfold checkCount at h
  dsimp only at h
  split_ifs at h with hleast hmost
  exact ⟨not_lt.1 hleast, not_lt.1 hmost⟩

/-- A list that is accepted has its number of arguments and all its arguments accepted. -/
theorem checks_of_infer_ok (hquote : head ≠ .symbol "quote") (hlambda : head ≠ .symbol "lambda")
    {type : TypeExpr} (h : (Datum.list position (head :: arguments)).infer c = .ok type) :
    checkCount (position.getD .unknown) (headDeclaration? c head) arguments.length = .ok () ∧
      checkArguments c (position.getD .unknown) (headDeclaration? c head) 0 arguments = .ok () := by
  rw [infer.eq_14 c position head arguments hquote (fun _ _ h _ => hlambda h) hlambda] at h
  cases hcount : checkCount (position.getD .unknown) (headDeclaration? c head) arguments.length with
  | error r =>
    rw [hcount] at h
    cases h
  | ok u =>
    cases hargs :
      checkArguments c (position.getD .unknown) (headDeclaration? c head) 0 arguments with
    | error r =>
      rw [hcount, hargs] at h
      cases h
    | ok u => exact ⟨rfl, rfl⟩

theorem Visits.infer_ok (h : x.Visits y) {type : TypeExpr} (hx : x.infer c = .ok type) :
    ∃ type, y.infer c = .ok type := by
  induction h generalizing type with
  | here => exact ⟨type, hx⟩
  | argument hquote hlambda ha _ ih =>
    obtain ⟨_, hargs⟩ := checks_of_infer_ok hquote hlambda hx
    obtain ⟨found, hfound⟩ := infer_ok_of_checkArguments hargs _ ha
    exact ih hfound
  | @body position parameters body y _ ih =>
    rw [infer] at hx
    cases hbody : body.infer c with
    | error r =>
      rw [hbody] at hx
      cases hx
    | ok found => exact ih hbody

end Datum

/-! ## The check and positions -/

/-- Where a rejected call stands. -/
def Rejection.position : Rejection → Position
  | .tooFew position _ _ => position
  | .tooMany position _ _ => position
  | .wrongType position _ _ _ _ => position

/-- A rejection of a call that does not stand in a text. -/
def Rejection.unplaced : Rejection → Rejection
  | .tooFew _ name least => .tooFew .unknown name least
  | .tooMany _ name most => .tooMany .unknown name most
  | .wrongType _ name index required found => .wrongType .unknown name index required found

namespace Datum

variable {c : Catalogue}

end Datum

/-! ## Calls during an evaluation -/

namespace Evaluation

open Reckoner.Action

variable {below : Evaluator} {scope : ScopeId} {i j k : Interpreter} {t : Activity} {x y : Datum}
  {xs : List Datum}

theorem InOrder.mem {admits : Interpreter → Datum → Prop} {s : ScopeId}
    (h : InOrder below scope admits xs i (.eval y s) k) : y ∈ xs := by
  generalize ht : Activity.eval y s = t at h
  induction h with
  | here =>
    cases ht
    exact List.mem_cons_self
  | later _ _ _ ih => exact List.mem_cons_of_mem _ (ih ht)

theorem InBranches.mem {s : ScopeId} (h : InBranches below scope xs i (.eval y s) k) : y ∈ xs := by
  generalize ht : Activity.eval y s = t at h
  induction h with
  | condition =>
    cases ht
    exact List.mem_cons_self
  | branch =>
    cases ht
    exact List.mem_cons_of_mem _ List.mem_cons_self
  | rest _ _ _ ih => exact List.mem_cons_of_mem _ (List.mem_cons_of_mem _ (ih ht))
  | last =>
    cases ht
    exact List.mem_cons_self

/-- Only special forms other than quotations and functions evaluate their items. -/
theorem stands_of_headKeyword? {head : Datum} {position : Option Position}
    (hquote : headKeyword? head ≠ some .quote) (hlambda : headKeyword? head ≠ some .lambda)
    {items : List Datum} (hy : y ∈ items) : (Datum.list position (head :: items)).Stands y := by
  refine .argument ?_ ?_ hy (.here y)
  · rintro rfl
    exact hquote rfl
  · rintro rfl
    exact hlambda rfl

/-- The evaluation of an expression evaluates what stands in it, or the body of the function that
its head gives. -/
theorem Starts.stands {depth level : ℕ} {inner : ScopeId}
    (h : Starts depth (.eval x scope) i level (.eval y inner) k) :
    x.Stands y ∨ ∃ position head arguments parameters outer l,
      x = .list position (head :: arguments) ∧
        ((evaluator level).eval head scope).runFrom i = (.ok (.closure parameters y outer), l) := by
  cases h with
  | list h =>
    cases h with
    | item hhead h =>
      rcases List.mem_cons.1 h.mem with rfl | hmem
      · exact .inl (.head (.here _))
      · refine .inl (stands_of_headKeyword? ?_ ?_ hmem)
        · simp [hhead]
        · simp [hhead]
    | applied _ hfunction _ h =>
      cases h with
      | body => exact .inr ⟨_, _, _, _, _, _, rfl, hfunction⟩
    | timed hname =>
      refine .inl (stands_of_headKeyword? ?_ ?_ List.mem_cons_self)
      · simp [headKeyword?, hname]
      · simp [headKeyword?, hname]
    | branch hname h =>
      refine .inl (stands_of_headKeyword? ?_ ?_ h.mem)
      · simp [headKeyword?, hname]
      · simp [headKeyword?, hname]
    | definition hname =>
      refine .inl (stands_of_headKeyword? ?_ ?_ (List.mem_cons_of_mem _ List.mem_cons_self))
      · simp [headKeyword?, hname]
      · simp [headKeyword?, hname]
    | sequence hname h =>
      refine .inl (stands_of_headKeyword? ?_ ?_ h.mem)
      · simp [headKeyword?, hname]
      · simp [headKeyword?, hname]

theorem length_evalArguments {values : List Datum}
    (h : (evalArguments below scope xs).runFrom i = (.ok values, k)) :
    values.length = xs.length := by
  induction xs generalizing i values with
  | nil =>
    cases h
    rfl
  | cons x rest ih =>
    rw [evalArguments] at h
    rcases runFrom_cases (below.eval x scope) i with ⟨value, j, hx⟩ | ⟨failure, j, hx⟩
    · rw [runFrom_bind_ok hx] at h
      rcases runFrom_cases (evalArguments below scope rest) j with
        ⟨others, l, hrest⟩ | ⟨failure, l, hrest⟩
      · rw [runFrom_bind_ok hrest] at h
        cases h
        exact congrArg (· + 1) (ih hrest)
      · rw [runFrom_bind_error hrest] at h
        cases h
    · rw [runFrom_bind_error hx] at h
      cases h

theorem InOrder.ne_call {admits : Interpreter → Datum → Prop} {f : Native} {args : List Datum} :
    ¬ InOrder below scope admits xs i (.call f args) k := by
  generalize ht : Activity.call f args = t
  intro h
  induction h with
  | here => cases ht
  | later _ _ _ ih => exact ih ht

theorem InBranches.ne_call {f : Native} {args : List Datum} :
    ¬ InBranches below scope xs i (.call f args) k := by
  generalize ht : Activity.call f args = t
  intro h
  induction h with
  | condition => cases ht
  | branch => cases ht
  | rest _ _ _ ih => exact ih ht
  | last => cases ht

/-- A list that runs a native function is a call, with as many arguments as it has items after the
head. -/
theorem InList.call {f : Native} {args : List Datum} {head : Datum} {items : List Datum}
    (h : InList below scope (head :: items) i (.call f args) k) :
    headKeyword? head = none ∧ args.length = items.length := by
  cases h with
  | item _ h => exact absurd h InOrder.ne_call
  | applied hhead _ hvalues h =>
    cases h with
    | native => exact ⟨hhead, length_evalArguments hvalues⟩
  | branch _ h => exact absurd h InBranches.ne_call
  | sequence _ h => exact absurd h InOrder.ne_call

/-- Whenever the evaluation of an expression comes to a call that is written with the name of a
declared function, and the call runs that function, the number of arguments is as declared. -/
def CallsWell (x : Datum) (scope : ScopeId) (i : Interpreter) (y : Datum) : Prop :=
  ∀ (depth level bottom : ℕ) (inner : ScopeId) (j k : Interpreter) (position : Option Position)
    (name : String) (items : List Datum) (d : Declaration) (f : Native) (args : List Datum),
    y = .list position (.symbol name :: items) →
    Reaches depth (.eval x scope) i level (.eval y inner) j →
    Starts level (.eval y inner) j bottom (.call f args) k →
    i.catalogue.find? name = some d → d.function = some f →
    d.least ≤ args.length ∧ (args.length : ℤ) ≤ d.most

theorem callsWell_of_visits {type : TypeExpr} (hx : x.infer i.catalogue = .ok type)
    (h : x.Visits y) : CallsWell x scope i y := by
  rintro depth level bottom inner j k position name items d f args rfl _ hcall hd _
  cases hcall with
  | list hcall =>
    obtain ⟨hhead, hlength⟩ := hcall.call
    obtain ⟨type, haccepted⟩ := h.infer_ok hx
    have hquote : Datum.symbol name ≠ .symbol "quote" := by
      rintro ⟨⟩
      cases hhead
    have hlambda : Datum.symbol name ≠ .symbol "lambda" := by
      rintro ⟨⟩
      cases hhead
    obtain ⟨hcount, _⟩ := Datum.checks_of_infer_ok hquote hlambda haccepted
    rw [Datum.headDeclaration?, hd] at hcount
    rw [hlength]
    exact Datum.bounds_of_checkCount hcount

/-- What the check of an expression protects.  Every call in an accepted expression, wherever it
stands, runs the function that it names only with as many arguments as declared, unless it stands
inside the head of another call.  So the expression as a whole is protected exactly when the calls
inside heads are in order by themselves. -/
theorem infer_protects {type : TypeExpr} (hx : x.infer i.catalogue = .ok type) (scope : ScopeId) :
    (∀ y, x.Stands y → CallsWell x scope i y ∨ x.StandsInHead y) ∧
      ((∀ y, x.Stands y → CallsWell x scope i y) ↔
        ∀ y, x.StandsInHead y → CallsWell x scope i y) := by
  have hvisits : ∀ y, x.Stands y → CallsWell x scope i y ∨ x.StandsInHead y :=
    fun y hy => hy.visits_or.imp_left (callsWell_of_visits hx)
  refine ⟨hvisits, fun h y hy => h y hy.stands, fun h y hy => ?_⟩
  rcases hvisits y hy with hwell | hhead
  · exact hwell
  · exact h y hhead

theorem infer_protects_not :
    (Datum.ofList [.symbol "not", .symbol "true"]).infer Interpreter.initial.catalogue = .ok .bool ∧
      ∀ y, (Datum.ofList [.symbol "not", .symbol "true"]).Stands y →
        CallsWell (.ofList [.symbol "not", .symbol "true"]) globalScope .initial y := by
  have hinfer : (Datum.ofList [.symbol "not", .symbol "true"]).infer
      Interpreter.initial.catalogue = .ok .bool := by rfl
  refine ⟨hinfer, (infer_protects hinfer globalScope).2.2 ?_⟩
  -- there is only one list, and its head is a symbol
  rintro y ⟨position, head, arguments, hvisits, hhead⟩
  generalize hx : Datum.ofList [.symbol "not", .symbol "true"] = x at hvisits
  cases hvisits with
  | here =>
    cases hx
    rw [hhead.eq_symbol]
    rintro _ _ _ _ _ _ _ _ _ _ _ _ ⟨⟩
  | argument _ _ ha h =>
    cases hx
    rw [List.mem_singleton.1 ha] at h
    cases h
  | body => simp [Datum.ofList] at hx

/-- The head of a call is not checked: `((not))` is accepted, and runs `not` without an argument,
which fails. -/
theorem not_infer_protects :
    let inner := Datum.list (some ⟨"t", 1, 2⟩) [.symbol "not"]
    let x := Datum.list (some ⟨"t", 1, 1⟩) [inner]
    Datum.read "t" "((not))" = .ok x ∧ x.infer Interpreter.initial.catalogue = .ok .any ∧
      x.Stands inner ∧ ¬ CallsWell x globalScope .initial inner ∧
      ((evaluator 3).eval x globalScope).FailsWith .initial
        (.raised (.missing 0 0) (some ⟨"t", 1, 2⟩)) := by
  intro inner x
  refine ⟨by rfl, by rfl, .head (.here inner), fun h => ?_, by rfl⟩
  have hreaches : Reaches 3 (.eval x globalScope) .initial 2 (.eval inner globalScope) .initial :=
    .step (.list (.item rfl (.here [] trivial))) (.refl 2 _ _)
  have hcall : Starts 2 (.eval inner globalScope) .initial 1 (.call (.builtin .not) []) .initial :=
    .list (.applied rfl (by rfl) (by rfl) (.native _ _ _))
  have hbounds := h 3 2 1 globalScope .initial .initial _ "not" [] _ _ [] rfl hreaches hcall rfl rfl
  exact absurd hbounds.1 (by decide)

end Evaluation

end Reckoner
