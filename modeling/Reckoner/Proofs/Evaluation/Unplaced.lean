import Reckoner.Proofs.Evaluation.Provenance

/-!
# Data have no positions

The reader puts a position on every list of code.  Quoting, the empty list, the parameters of a
function and the list of all arguments each turn code into data in their own way, and
`data_unplaced` says that none of them lets a position through: from the start of an interpreter on,
no variable, no argument of a native function and no value has one, except for the code in the
bodies of functions.

The regime is that of the geography in which every scope admits every position: it says nothing
about code, and of values that they have no positions of their own.
-/

namespace Reckoner

mutual

/-- Whether data have no positions, except in the bodies of functions. -/
def Datum.isUnplaced : Datum → Bool
  | .list position items => position.isNone && areUnplaced items
  | .closure parameters _ _ => parameters.isUnplaced
  | _ => true

/-- Whether no item has a position. -/
def Datum.areUnplaced : List Datum → Bool
  | [] => true
  | item :: rest => item.isUnplaced && areUnplaced rest

end

theorem Datum.areUnplaced_eq_true {items : List Datum}
    (h : ∀ item ∈ items, item.isUnplaced = true) :
    areUnplaced items = true := by
  induction items with
  | nil => rfl
  | cons item rest ih =>
    rw [areUnplaced, h item List.mem_cons_self, Bool.true_and]
    exact ih fun other hother => h other (List.mem_cons_of_mem item hother)

/-- Sound data that admit no position have none. -/
theorem Datum.Sound.isUnplaced {place : ScopeId → Prop} {admits : ScopeId → Position → Prop}
    {own : Position → Prop} {d : Datum} (h : d.Sound place admits own) (hown : ∀ p, ¬ own p) :
    d.isUnplaced = true := by
  induction h with
  | @atom own d hlist hclosure =>
    cases d
    case list position items => exact absurd rfl (hlist _ _)
    case closure parameters body scope => exact absurd rfl (hclosure _ _ _)
    all_goals rfl
  | @list own position items hposition _ ih =>
    have hnone : position = none := by
      cases position with
      | none => rfl
      | some p => exact absurd (hposition p rfl) (hown p)
    rw [Datum.isUnplaced, hnone, Datum.areUnplaced_eq_true fun item hitem => ih item hitem hown]
    rfl
  | closure _ _ _ ihparameters _ =>
    rw [Datum.isUnplaced]
    exact ihparameters fun _ => id

/-- No variable has a position in its value. -/
def Interpreter.Unplaced (i : Interpreter) : Prop :=
  ∀ (id : ScopeId) (scope : Scope) (name : String) (d : Datum), i.scopes[id]? = some scope →
    (name, d) ∈ scope.bindings → d.isUnplaced = true

/-- Every scope admits every position. -/
def Geography.anywhere : Geography where
  Layout _ := True
  Grows _ _ := True
  place _ _ := True
  admits _ _ _ := True
  grows_refl _ := trivial
  grows_trans _ _ := trivial
  place_of_grows _ _ := trivial
  admits_of_grows _ _ := trivial
  assign _ _ _ _ := ⟨trivial, trivial⟩
  call _ _ _ := ⟨trivial, trivial, trivial, fun _ _ => trivial⟩
  script _ _ _ := ⟨trivial, trivial, trivial, fun _ _ => trivial⟩

theorem Geography.Value.isUnplaced {g : Geography} {t : ScopeTable} {d : Datum} (h : g.Value t d) :
    d.isUnplaced = true :=
  Datum.Sound.isUnplaced h fun _ => not_false

theorem Geography.Holds.unplaced {g : Geography} {i : Interpreter} (h : g.Holds i) : i.Unplaced :=
  fun id scope name d hscope hmem => (h.bound id scope name d hscope hmem).isUnplaced

namespace Session

open Reckoner.Action Reckoner.Evaluation

/-- Whatever happens to an interpreter from its start on, no variable of any scope has a position in
its value, and neither has a value that an evaluation gives, except in the bodies of functions.  The
same holds at every moment inside an evaluation, of the arguments that native functions get, and of
the values of everything that is evaluated on the way. -/
theorem data_unplaced {start i : Interpreter} {values : List Datum}
    (hstart : start = .initial ∨ ∃ folder, start = Interpreter.initial.withShell folder)
    (h : History (fun _ _ _ => True) start values i) :
    i.Unplaced ∧ (∀ d ∈ values, d.isUnplaced = true) ∧
      ∀ depth a level s k, Asked (fun _ _ _ => True) i values a → Reaches depth a i level s k →
        let run := (s.perform (evaluator level)).runFrom k
        k.Unplaced ∧ run.2.Unplaced ∧ (∀ d, run.1 = .ok d → d.isUnplaced = true) ∧
          ∀ f arguments, s = .call f arguments → ∀ d ∈ arguments, d.isUnplaced = true := by
  have htakes : ∀ (t : ScopeTable) (source : String) (id : ScopeId), True →
      Geography.anywhere.Layout t → Geography.anywhere.place t id ∧
        ∀ p : Position, p.source = source → Geography.anywhere.admits t id p :=
    fun _ _ _ _ _ => ⟨trivial, fun _ _ => trivial⟩
  have hholds : Geography.anywhere.Holds start := by
    rcases hstart with rfl | ⟨folder, rfl⟩
    · exact Geography.holds_initial trivial
    · exact Geography.holds_withShell trivial
  obtain ⟨hi, hvalues⟩ := hholds.history htakes h
  refine ⟨hi.unplaced, fun d hd => (hvalues d hd).isUnplaced, ?_⟩
  intro depth a level s k ha hreaches run
  obtain ⟨hk, hs⟩ := hreaches.within hi (hi.asked htakes hvalues ha)
  obtain ⟨hstep, hvalue⟩ := hs.leads hk level
  refine ⟨hk.unplaced, (hstep.2 hk).unplaced, ?_, ?_⟩
  · exact fun d hd => (hvalue d hd).isUnplaced
  · rintro f arguments rfl d hd
    exact (hs.2 d hd).isUnplaced

/-- A function of all its arguments is defined, and then called with a quoted list: its body gives
the list of all arguments to `list`. -/
theorem data_unplaced_collected :
    let body := Datum.list (some ⟨"t", 1, 21⟩) [.symbol "list", .symbol "a"]
    let x := Datum.list (some ⟨"t", 1, 1⟩) [.symbol "define", .symbol "f",
      .list (some ⟨"t", 1, 11⟩) [.symbol "lambda", .symbol "a", body]]
    let i := (((evaluator 3).eval x globalScope).runFrom .initial).2
    i.Unplaced ∧ (Datum.ofList [.ofList [.number (.int64 1)]]).isUnplaced = true := by
  intro body x i
  let f := Datum.closure (.symbol "a") body globalScope
  let y := Datum.list (some ⟨"t", 1, 1⟩)
    [.symbol "f", .ofList [.symbol "quote", .ofList [.number (.int64 1)]]]
  let arguments := Datum.ofList [.ofList [.number (.int64 1)]]
  have hscan : Token.scan "t" "(define f (lambda a (list a)))" = .ok _ := rfl
  have hscan' : Token.scan "t" "(f \x27(1))" = .ok _ := rfl
  have hdefinition : Asked (fun _ _ _ => True) .initial [] (.eval x globalScope) :=
    .text hscan (List.mem_singleton.2 rfl) trivial
  have hrun : ((Activity.eval x globalScope).perform (evaluator 3)).runFrom .initial = (.ok f, i) :=
    rfl
  have hquestion : Asked (fun _ _ _ => True) i [f] (.eval y globalScope) :=
    .text hscan' (List.mem_singleton.2 rfl) trivial
  have hbody : Starts 3 (.eval y globalScope) i 2 (.eval body 1)
      (i.openCall [("a", arguments)] globalScope) :=
    .list (.applied rfl rfl rfl (.body rfl))
  have hcall : Starts 2 (.eval body 1) (i.openCall [("a", arguments)] globalScope) 1
      (.call (.builtin .list) [arguments]) (i.openCall [("a", arguments)] globalScope) :=
    .list (.applied rfl rfl rfl (.native _ _ _))
  obtain ⟨hi, _, hinside⟩ := data_unplaced (.inl rfl) (.value .start hdefinition hrun)
  obtain ⟨_, _, _, harguments⟩ :=
    hinside 3 _ 1 _ _ hquestion (.step hbody (.step hcall (.refl _ _ _)))
  exact ⟨hi, harguments _ _ rfl arguments List.mem_cons_self⟩

end Session

end Reckoner
