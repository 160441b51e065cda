import Reckoner.Proofs.Evaluation.Definition
import Reckoner.Proofs.Evaluation.Discipline
import Reckoner.Proofs.Evaluation.Provenance

/-!
# Where imports look for files

`import` is a variable like any other.  The scope of every file binds it to a loader that belongs to
the folder of the file, and the shell binds it to one that belongs to the folder that the shell was
started with.  What code imports is therefore a matter of the scope that the code ends up in.

* Homes.  `Home` is the scope of a file or of the shell, and `ScopeTable.Inside` says that a scope
  lies in one, with only the frames of calls in between.  Homes are sealed, so nothing is ever
  defined there, and `Inside.lookup_eq` gives the value that a variable has in them.
* `Geography.homes` is the geography in which each scope lies in the home of the file that its code
  was read from: a function stays in the scope that it was made in, wherever it is called from.
* `Session.import_resolves` reads the folder off the home.
-/

namespace Reckoner

open Evaluation

/-! ## Homes -/

/-- The scope of the functions that reach outside. -/
def Scope.ofShell (folder : String) : Scope where
  bindings := Interpreter.declaredBindings (({} : Catalogue).declareShell folder)
  outer := some globalScope
  isSealed := true

/-- Where code is at home: in the shell, or in a file that was named in a folder. -/
inductive Home where
  | shell
  | script (folder file : String)

namespace Home

variable (wd : String)

/-- The scope of a home, for a shell that was started with a folder. -/
def scope : Home → Scope
  | shell => .ofShell wd
  | script folder file => scriptScope folder file

/-- The folder that relative names are below. -/
def folder : Home → String
  | shell => wd
  | script _ file => Path.folderOf file

/-- The texts that are evaluated in a home: the shell takes what is typed, and a file takes what
stands in it. -/
def Takes (typed : String → Prop) (source : String) : Home → Prop
  | shell => typed source
  | script _ file => source = file

theorem isSealed_scope (home : Home) : (home.scope wd).isSealed = true := by cases home <;> rfl

/-- Each home has its own import. -/
theorem lookup_import (home : Home) :
    ∃ owner, (home.scope wd).bindings.lookup "import" =
      some (.native (.importFile owner (home.folder wd))) := by
  cases home with
  | shell => exact ⟨.shell, rfl⟩
  | script folder file => exact ⟨.script, rfl⟩

end Home

/-! ## Scopes inside a home -/

/-- A scope lies in a home, with frames in between, the innermost one first. -/
inductive ScopeTable.Inside (t : ScopeTable) (wd : String) (home : Home) :
    List Scope → ScopeId → Prop where
  | home {id : ScopeId} (hscope : t[id]? = some (home.scope wd)) : Inside t wd home [] id
  | frame {id outer : ℕ} {scope : Scope} {frames : List Scope} (hscope : t[id]? = some scope)
      (hopen : scope.isSealed = false) (houter : scope.outer = some outer) (hlt : outer < id)
      (h : Inside t wd home frames outer) : Inside t wd home (scope :: frames) id

/-- One table grows to another: scopes stay where they are, and sealed ones stay what they are. -/
structure ScopeTable.Grows (t u : ScopeTable) : Prop where
  places : t.Extends u
  sealed : ∀ (id : ScopeId) (scope : Scope), t[id]? = some scope → scope.isSealed = true →
    u[id]? = some scope

namespace ScopeTable

variable {t u v : ScopeTable} {wd name : String} {home : Home} {frames : List Scope} {id : ℕ}

theorem Inside.lt_size (h : t.Inside wd home frames id) : id < t.size := by
  cases h with
  | home hscope => exact lt_of_getElem? hscope
  | frame hscope => exact lt_of_getElem? hscope

/-- A variable of the home that no frame has is seen from inside. -/
theorem Inside.lookup_eq (h : t.Inside wd home frames id)
    (hfree : ∀ frame ∈ frames, frame.bindings.lookup name = none) {value : Datum}
    (hvalue : (home.scope wd).bindings.lookup name = some value) :
    t.lookup id name = some value := by
  -- scopes lie inside earlier ones, so a fuel above the scope lasts for the whole way
  have hwalk : ∀ fuel, id < fuel → t.lookupFrom name fuel id = some value := by
    induction h with
    | @home id hscope =>
      intro fuel hfuel
      obtain ⟨fuel, rfl⟩ := Nat.exists_eq_succ_of_ne_zero (Nat.ne_zero_of_lt hfuel)
      rw [lookupFrom, hscope]
      dsimp only
      rw [hvalue]
    | @frame id outer scope frames hscope _ houter hlt _ ih =>
      intro fuel hfuel
      obtain ⟨fuel, rfl⟩ := Nat.exists_eq_succ_of_ne_zero (Nat.ne_zero_of_lt hfuel)
      rw [lookupFrom_succ hscope houter, hfree scope List.mem_cons_self, Option.none_or]
      exact ih (fun other hother => hfree other (List.mem_cons_of_mem scope hother)) fuel (by omega)
  exact hwalk (id + 1) (Nat.lt_succ_self id)

theorem Grows.refl (t : ScopeTable) : t.Grows t := ⟨.refl t, fun _ _ h _ => h⟩

theorem Grows.trans (htu : t.Grows u) (huv : u.Grows v) : t.Grows v :=
  ⟨htu.places.trans huv.places, fun id scope hscope hsealed =>
    huv.sealed id scope (htu.sealed id scope hscope hsealed) hsealed⟩

theorem grows_push (t : ScopeTable) (scope : Scope) : t.Grows (t.push scope) :=
  ⟨extends_push t scope, fun _ _ hfound _ => getElem?_push_of_getElem? hfound scope⟩

/-- A definition goes to a scope that is not sealed. -/
theorem grows_assign (ht : t.Layered) (hid : id < t.size) (name : String) (value : Datum) :
    t.Grows (t.assign (t.definitionTarget id) name value) := by
  refine ⟨extends_assign t _ name value, fun other scope hscope hsealed => ?_⟩
  have hne : t.definitionTarget id ≠ other := by
    rintro rfl
    rw [(definesAt_definitionTarget ht hid).not_sealed hscope] at hsealed
    cases hsealed
  rw [getElem?_assign, if_neg hne]
  exact hscope

/-- What lies in a home stays there, though the variables of the frames may change. -/
theorem Inside.grows (h : t.Inside wd home frames id) (hgrows : t.Grows u) :
    ∃ frames, u.Inside wd home frames id := by
  induction h with
  | home hscope => exact ⟨[], .home (hgrows.sealed _ _ hscope (home.isSealed_scope wd))⟩
  | frame hscope hopen houter hlt _ ih =>
    obtain ⟨frames, hinside⟩ := ih
    obtain ⟨after, hafter, houter', hsealed⟩ := hgrows.places _ _ hscope
    exact ⟨after :: frames,
      .frame hafter (hsealed.trans hopen) (houter'.trans houter) hlt hinside⟩

/-- A call opens a frame inside the home of the function. -/
theorem Inside.call {outer : ℕ} (h : t.Inside wd home frames outer) (bindings : Bindings) :
    ∃ frames,
      ScopeTable.Inside (t.push { bindings, outer := some outer }) wd home frames t.size := by
  obtain ⟨frames, hinside⟩ := h.grows (grows_push t { bindings, outer := some outer })
  exact ⟨_, .frame Array.getElem?_push_size rfl rfl h.lt_size hinside⟩

end ScopeTable

/-- Every scope lies in a home, and admits the positions of the texts that its home takes. -/
def Geography.homes (wd : String) (typed : String → Prop) : Geography where
  Layout t := t.Layered ∧ t[shellScope]? = some (Home.shell.scope wd)
  Grows := ScopeTable.Grows
  place t id := ∃ home frames, t.Inside wd home frames id
  admits t id p := ∃ home frames, t.Inside wd home frames id ∧ home.Takes typed p.source
  grows_refl := .refl
  grows_trans := .trans
  place_of_grows := by
    rintro t u id hgrows ⟨home, frames, hinside⟩
    exact ⟨home, hinside.grows hgrows⟩
  admits_of_grows := by
    rintro t u id p hgrows ⟨home, frames, hinside, htakes⟩
    obtain ⟨frames, hinside⟩ := hinside.grows hgrows
    exact ⟨home, frames, hinside, htakes⟩
  assign := by
    rintro t id name value ⟨hlayered, hshell⟩ ⟨home, frames, hinside⟩
    have hgrows := ScopeTable.grows_assign hlayered hinside.lt_size name value
    exact ⟨⟨hlayered.assign _ _ _, hgrows.sealed _ _ hshell rfl⟩, hgrows⟩
  call := by
    rintro t outer bindings ⟨hlayered, hshell⟩ ⟨home, frames, hinside⟩
    have hgrows := ScopeTable.grows_push t { bindings, outer := some outer }
    refine ⟨⟨hlayered.push (by simp), hgrows.sealed _ _ hshell rfl⟩, hgrows,
      ⟨home, hinside.call bindings⟩, ?_⟩
    rintro p ⟨home, frames, hinside, htakes⟩
    obtain ⟨frames, hinside⟩ := hinside.call bindings
    exact ⟨home, frames, hinside, htakes⟩
  script := by
    rintro t folder file ⟨hlayered, hshell⟩
    have hgrows := ScopeTable.grows_push t (scriptScope folder file)
    have hinside : ScopeTable.Inside (t.push (scriptScope folder file)) wd (.script folder file) []
        t.size := .home Array.getElem?_push_size
    refine ⟨⟨hlayered.push fun _ => ⟨shellScope, rfl, ScopeTable.lt_of_getElem? hshell⟩,
      hgrows.sealed _ _ hshell rfl⟩, hgrows, ⟨_, _, hinside⟩, ?_⟩
    exact fun p hp => ⟨_, _, hinside, hp⟩

/-! ## Imports -/

namespace Evaluation

open Reckoner.Action

variable {i j k : Interpreter} {scope : ScopeId} {x value : Datum}

theorem display_beginning (i : Interpreter) (name : Option String) (category : String)
    (value : Datum) : (i.beginning name category).display value = i.display value := by
  unfold Interpreter.beginning
  split <;> rfl

/-- To import is to evaluate the name, and then to load the file that it names. -/
theorem runFrom_import {level : ℕ} {owner : LoaderOwner} {folder : String}
    (hfound : k.scopes.lookup scope "import" = some (.native (.importFile owner folder)))
    (hx : ((evaluator level).eval x scope).runFrom k = (.ok value, j)) :
    ∃ name, (evalList (evaluator level) scope [.symbol "import", x]).runFrom k =
      (recorded name "builtin" (loadScript (evaluator level) folder
        (Path.resolve folder (j.display value)))).runFrom j := by
  cases level with
  | zero => cases hx
  | succ level =>
    have hhead : ((evaluator (level + 1)).eval (.symbol "import") scope).runFrom k =
        (.ok (.native (.importFile owner folder)), k) :=
      runFrom_evalStep_bound (evaluator level) hfound
    have hvalues : (evalArguments (evaluator (level + 1)) scope [x]).runFrom k =
        (.ok [value], j) := by
      rw [evalArguments, runFrom_bind_ok hx]
      rfl
    rw [evalList_of_headKeyword? rfl, evalCall_eq_applyStep, runFrom_bind_ok hhead,
      runFrom_bind_ok hvalues, applyStep, applyNative_eq, runFrom_get_bind]
    refine ⟨(j.catalogue.findNative? (.importFile owner folder)).map (·.name), ?_⟩
    rw [runFrom_recorded, runFrom_recorded, runNative, runFrom_bind_ok (runFrom_fileArgument ..),
      display_beginning]

end Evaluation

namespace Session

open Reckoner.Action Reckoner.Evaluation

/-- The shell takes what is typed, and the scope of a file takes what stands in the file. -/
def HomeTakes (typed : String → Prop) (t : ScopeTable) (source : String) (id : ScopeId) : Prop :=
  id = shellScope ∧ typed source ∨ ∃ folder, t[id]? = some (scriptScope folder source)

/-- Whatever happens in a shell from its start on, an import is evaluated inside the home of the
file that it was read from, or of the shell if it was typed.  Unless a frame in between has a
variable of that name, it loads the file that its argument names: an absolute name as it is, and any
other name below the folder of that file, or below the folder that the shell was started with. -/
theorem import_resolves {wd : String} {typed : String → Prop} {values : List Datum}
    {i k : Interpreter} {a : Activity} {depth level : ℕ} {position : Option Position} {x : Datum}
    {scope : ScopeId}
    (h : History (HomeTakes typed) (Interpreter.initial.withShell wd) values i)
    (ha : Asked (HomeTakes typed) i values a)
    (hreaches : Reaches depth a i (level + 1)
      (.eval (.list position [.symbol "import", x]) scope) k) :
    ∃ home frames, k.scopes.Inside wd home frames scope ∧
      (∀ p, position = some p → home.Takes typed p.source) ∧
      ((∀ frame ∈ frames, frame.bindings.lookup "import" = none) →
        ∀ value j, ((evaluator level).eval x scope).runFrom k = (.ok value, j) →
          let n := j.display value
          ∃ name, (evalList (evaluator level) scope [.symbol "import", x]).runFrom k =
            (recorded name "builtin" (loadScript (evaluator level) (home.folder wd)
              (if Path.isAbsolute n then n else Path.join (home.folder wd) n))).runFrom j) := by
  let g := Geography.homes wd typed
  have htakes : ∀ (t : ScopeTable) (source : String) (id : ScopeId), HomeTakes typed t source id →
      g.Layout t → g.place t id ∧ ∀ p : Position, p.source = source → g.admits t id p := by
    rintro t source id (⟨rfl, htyped⟩ | ⟨folder, hscope⟩) ⟨_, hshell⟩
    · exact ⟨⟨.shell, [], .home hshell⟩, fun p hp => ⟨.shell, [], .home hshell, hp ▸ htyped⟩⟩
    · have hinside : t.Inside wd (.script folder source) [] id := .home hscope
      exact ⟨⟨_, _, hinside⟩, fun p hp => ⟨_, _, hinside, hp⟩⟩
  have hstart : g.Holds (Interpreter.initial.withShell wd) :=
    Geography.holds_withShell ⟨(wellFormed_withShell wd).layered, rfl⟩
  obtain ⟨hi, hvalues⟩ := hstart.history htakes h
  obtain ⟨_, hplace, hsound⟩ := hreaches.within hi (hi.asked htakes hvalues ha)
  -- code without a position was made by the host, and may be evaluated in any home
  have hhome : ∃ home frames, k.scopes.Inside wd home frames scope ∧
      ∀ p, position = some p → home.Takes typed p.source := by
    cases position with
    | none =>
      obtain ⟨home, frames, hinside⟩ := hplace
      exact ⟨home, frames, hinside, by simp⟩
    | some p =>
      obtain ⟨home, frames, hinside, hsource⟩ := hsound.position
      exact ⟨home, frames, hinside, fun q hq => Option.some.inj hq ▸ hsource⟩
  obtain ⟨home, frames, hinside, hsource⟩ := hhome
  refine ⟨home, frames, hinside, hsource, fun hfree value j hx => ?_⟩
  obtain ⟨owner, himport⟩ := home.lookup_import wd
  exact runFrom_import (hinside.lookup_eq hfree himport) hx

/-- A file defines a function that imports its argument.  Called from the prompt, the function looks
for the name next to the file. -/
theorem import_resolves_called :
    let body := Datum.list (some ⟨"/w/d/a.scm", 1, 23⟩) [.symbol "import", .symbol "n"]
    let x := Datum.list (some ⟨"/w/d/a.scm", 1, 1⟩) [.symbol "define", .symbol "f",
      .list (some ⟨"/w/d/a.scm", 1, 11⟩) [.symbol "lambda",
        .list (some ⟨"/w/d/a.scm", 1, 19⟩) [.symbol "n"], body]]
    let i := (((evaluator 3).eval x 2).runFrom
      ((Interpreter.initial.withShell "/w").openScript "/w" "/w/d/a.scm")).2
    let k := i.openCall [("n", .text "b.scm")] 2
    ∃ name, (evalList (evaluator 1) 3 [.symbol "import", .symbol "n"]).runFrom k =
      (recorded name "builtin" (loadScript (evaluator 1) (Path.folderOf "/w/d/a.scm")
        (Path.join (Path.folderOf "/w/d/a.scm") "b.scm"))).runFrom k := by
  intro body x i k
  let typed : String → Prop := (· = "user prompt")
  let f := Datum.closure (.ofList [.symbol "n"]) body 2
  let y := Datum.list (some ⟨"user prompt", 1, 1⟩) [.symbol "f", .text "b.scm"]
  have hscan : Token.scan "/w/d/a.scm" "(define f (lambda (n) (import n)))" = .ok _ := rfl
  have hscan' : Token.scan "user prompt" "(f \"b.scm\")" = .ok _ := rfl
  have hdefinition : Asked (HomeTakes typed)
      ((Interpreter.initial.withShell "/w").openScript "/w" "/w/d/a.scm") [] (.eval x 2) :=
    .text hscan (List.mem_singleton.2 rfl) (.inr ⟨"/w", rfl⟩)
  have hrun : ((Activity.eval x 2).perform (evaluator 3)).runFrom
      ((Interpreter.initial.withShell "/w").openScript "/w" "/w/d/a.scm") = (.ok f, i) := rfl
  have hquestion : Asked (HomeTakes typed) i [f] (.eval y shellScope) :=
    .text hscan' (List.mem_singleton.2 rfl) (.inl ⟨rfl, rfl⟩)
  have hbody : Starts 3 (.eval y shellScope) i 2 (.eval body 3) k :=
    .list (.applied rfl rfl rfl (.body rfl))
  obtain ⟨home, frames, hinside, hsource, hload⟩ := import_resolves
    (.value (.script "/w" "/w/d/a.scm" .start) hdefinition hrun) hquestion
    (.step hbody (.refl _ _ _))
  have hframe : k.scopes[3]? = some { bindings := [("n", .text "b.scm")], outer := some 2 } := rfl
  have hscript : k.scopes[2]? = some (scriptScope "/w" "/w/d/a.scm") := rfl
  have hfree : ∀ frame ∈ frames, frame.bindings.lookup "import" = none := by
    cases hinside with
    | home hscope =>
      have hsealed := home.isSealed_scope "/w"
      rw [← Option.some.inj (hframe.symm.trans hscope)] at hsealed
      cases hsealed
    | frame hscope _ houter _ hinside =>
      cases hframe.symm.trans hscope
      cases houter
      cases hinside with
      | home => simp
      | frame hscope hopen =>
        cases hscript.symm.trans hscope
        cases hopen
  cases home with
  | shell =>
    have htyped : "/w/d/a.scm" = "user prompt" := hsource _ rfl
    exact absurd htyped (by decide)
  | script folder file =>
    -- the position of the body tells which file the scope of the call lies in
    obtain rfl : "/w/d/a.scm" = file := hsource _ rfl
    obtain ⟨name, hname⟩ := hload hfree (.text "b.scm") k rfl
    have hdisplay : k.display (.text "b.scm") = "b.scm" := rfl
    rw [hdisplay, if_neg (by decide)] at hname
    exact ⟨name, hname⟩

end Session

end Reckoner
