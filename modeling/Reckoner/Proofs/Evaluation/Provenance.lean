import Reckoner.Proofs.Evaluation.History

/-!
# Where code comes from

Positions are what code keeps of the text that it was read from.  They are lost on the way from code
to data, and a function keeps them in its body together with the scope that it was made in.

`Datum.Sound` says how positions are spread over data: those of the code itself, which have to be
admitted, those in the bodies of functions, which have to be admitted in the scopes of the
functions, and none in between.  A `Geography` says which scopes there are and which positions each
one admits, and how both go on when a scope is opened.  It gives a regime, which every history
keeps.
-/

namespace Reckoner

open Reckoner.Action Interpreter

/-! ## Positions in data -/

/-- Data whose own positions are admitted, and whose functions have places, and bodies with
positions that are admitted there. -/
inductive Datum.Sound (place : ScopeId → Prop) (admits : ScopeId → Position → Prop) :
    (Position → Prop) → Datum → Prop where
  | atom {own : Position → Prop} {d : Datum} (hlist : ∀ position items, d ≠ .list position items)
      (hclosure : ∀ parameters body scope, d ≠ .closure parameters body scope) :
      Sound place admits own d
  | list {own : Position → Prop} {position : Option Position} {items : List Datum}
      (hposition : ∀ p, position = some p → own p)
      (hitems : ∀ item ∈ items, Sound place admits own item) :
      Sound place admits own (.list position items)
  | closure {own : Position → Prop} {parameters body : Datum} {scope : ScopeId}
      (hscope : place scope) (hparameters : Sound place admits (fun _ => False) parameters)
      (hbody : Sound place admits (admits scope) body) :
      Sound place admits own (.closure parameters body scope)

namespace Datum.Sound

variable {place place' : ScopeId → Prop} {admits admits' : ScopeId → Position → Prop}
  {own own' : Position → Prop} {d : Datum}

theorem mono (h : d.Sound place admits own) (hplace : ∀ s, place s → place' s)
    (hadmits : ∀ s p, admits s p → admits' s p) (hown : ∀ p, own p → own' p) :
    d.Sound place' admits' own' := by
  induction h generalizing own' with
  | atom hlist hclosure => exact .atom hlist hclosure
  | list hposition _ ih =>
    exact .list (fun p hp => hown p (hposition p hp)) fun item hitem => ih item hitem hown
  | closure hscope _ _ ihparameters ihbody =>
    exact .closure (hplace _ hscope) (ihparameters fun _ => id) (ihbody (hadmits _))

/-- Data without positions of its own are sound as code of any scope. -/
theorem anywhere (h : d.Sound place admits fun _ => False) : d.Sound place admits own :=
  h.mono (fun _ => id) (fun _ _ => id) fun _ => False.elim

theorem item {position : Option Position} {items : List Datum} {item : Datum}
    (h : (Datum.list position items).Sound place admits own) (hitem : item ∈ items) :
    item.Sound place admits own := by
  cases h with
  | atom hlist => exact absurd rfl (hlist _ _)
  | list _ hitems => exact hitems item hitem

theorem position {p : Position} {items : List Datum}
    (h : (Datum.list (some p) items).Sound place admits own) : own p := by
  cases h with
  | atom hlist => exact absurd rfl (hlist _ _)
  | list hposition _ => exact hposition p rfl

theorem of_closure {parameters body : Datum} {scope : ScopeId}
    (h : (Datum.closure parameters body scope).Sound place admits own) :
    place scope ∧ body.Sound place admits (admits scope) := by
  cases h with
  | atom _ hclosure => exact absurd rfl (hclosure _ _ _)
  | closure hscope _ hbody => exact ⟨hscope, hbody⟩

theorem erase (h : d.Sound place admits own) : d.erase.Sound place admits fun _ => False := by
  induction h with
  | @atom own d hlist hclosure =>
    have hsame : d.erase = d := by
      cases d
      case list position items => exact absurd rfl (hlist _ _)
      all_goals simp [Datum.erase]
    rw [hsame]
    exact .atom hlist hclosure
  | list _ _ ih =>
    rw [Datum.erase, Datum.eraseAll_eq_map]
    refine .list (by simp) fun item hitem => ?_
    obtain ⟨inner, hinner, rfl⟩ := List.mem_map.1 hitem
    exact ih inner hinner
  | closure hscope hparameters hbody _ _ =>
    simpa [Datum.erase] using closure hscope hparameters hbody

theorem dataClosed : DataClosed fun d : Datum => d.Sound place admits own where
  nil := .atom (by simp) (by simp)
  bool _ := .atom (by simp) (by simp)
  text _ := .atom (by simp) (by simp)
  symbol _ := .atom (by simp) (by simp)
  number _ := .atom (by simp) (by simp)
  list := .list (by simp)

/-- What is read from a text is sound code of a scope that admits the positions in it. -/
theorem of_scan {source text : String} {tokens : List Token}
    (hscan : Token.scan source text = .ok tokens) (hown : ∀ p, p.source = source → own p) :
    ∀ x ∈ (Program.ofTokens tokens).expressions, x.Sound place admits own := by
  have hclosed : Reader.ClosedAt own fun d : Datum => d.Sound place admits own := by
    refine ⟨dataClosed.nil, fun position items hposition hitems => ?_, fun d hd => ?_⟩
    · exact .list (fun p hp => Option.some.inj hp ▸ hposition) hitems
    · -- the reader writes a quote out as a list of its own, which has no position
      refine dataClosed.list fun item hitem => ?_
      rcases List.mem_cons.1 hitem with rfl | hitem
      · exact dataClosed.symbol _
      · rw [List.mem_singleton.1 hitem]
        exact hd.erase.anywhere
  refine Program.forall_expressions_at hclosed Reader.itemsHave_nil
    (fun _ _ hmem => absurd hmem List.not_mem_nil) (fun d hd => ?_) fun p hp => ?_
  · cases Token.lexeme_of_scan hscan d hd with
    | symbol => exact dataClosed.symbol _
    | text => exact dataClosed.text _
    | number => exact dataClosed.number _
  · exact hown p (Token.opensIn_of_scan hscan p hp)

end Datum.Sound

/-! ## Scopes and the positions they admit -/

/-- Which scopes are places for code, and which positions each one admits. -/
structure Geography where
  Layout : ScopeTable → Prop
  /-- How tables grow. -/
  Grows : ScopeTable → ScopeTable → Prop
  place : ScopeTable → ScopeId → Prop
  admits : ScopeTable → ScopeId → Position → Prop
  grows_refl (t : ScopeTable) : Grows t t
  grows_trans {t u v : ScopeTable} : Grows t u → Grows u v → Grows t v
  place_of_grows {t u : ScopeTable} {id : ScopeId} : Grows t u → place t id → place u id
  admits_of_grows {t u : ScopeTable} {id : ScopeId} {p : Position} :
    Grows t u → admits t id p → admits u id p
  assign {t : ScopeTable} {id : ScopeId} (name : String) (value : Datum) :
    Layout t → place t id →
      Layout (t.assign (t.definitionTarget id) name value) ∧
        Grows t (t.assign (t.definitionTarget id) name value)
  /-- The scope of a call is a place inside the scope of the function, and admits what that does. -/
  call {t : ScopeTable} {outer : ScopeId} (bindings : Bindings) : Layout t → place t outer →
    let u : ScopeTable := t.push { bindings, outer := some outer }
    Layout u ∧ Grows t u ∧ place u t.size ∧ ∀ p, admits t outer p → admits u t.size p
  /-- The scope of a file is a place, and admits what stands in the file. -/
  script {t : ScopeTable} (folder file : String) : Layout t →
    let u : ScopeTable := t.push (Evaluation.scriptScope folder file)
    Layout u ∧ Grows t u ∧ place u t.size ∧ ∀ p : Position, p.source = file → admits u t.size p

namespace Geography

variable (g : Geography) {t u : ScopeTable} {i j : Interpreter} {d : Datum}

/-- Data without positions of its own, and with functions that have places. -/
def Value (t : ScopeTable) (d : Datum) : Prop := d.Sound (g.place t) (g.admits t) fun _ => False

/-- Code of a scope. -/
def Code (t : ScopeTable) (id : ScopeId) (d : Datum) : Prop :=
  g.place t id ∧ d.Sound (g.place t) (g.admits t) (g.admits t id)

/-- Variables and the functions that wait for files hold values. -/
structure Holds (i : Interpreter) : Prop where
  layout : g.Layout i.scopes
  bound : ∀ (id : ScopeId) (scope : Scope) (name : String) (d : Datum),
    i.scopes[id]? = some scope → (name, d) ∈ scope.bindings → g.Value i.scopes d
  watches : ∀ watch ∈ i.watches, ∀ handler, watch.handler = some handler →
    g.Value i.scopes handler

variable {g}

theorem Value.grows (h : g.Value t d) (hgrows : g.Grows t u) : g.Value u d :=
  h.mono (fun _ => g.place_of_grows hgrows) (fun _ _ => g.admits_of_grows hgrows) fun _ => id

theorem Code.grows {id : ScopeId} (h : g.Code t id d) (hgrows : g.Grows t u) : g.Code u id d :=
  ⟨g.place_of_grows hgrows h.1, h.2.mono (fun _ => g.place_of_grows hgrows)
    (fun _ _ => g.admits_of_grows hgrows) fun _ => g.admits_of_grows hgrows⟩

/-- More scopes, with variables that hold values. -/
theorem Holds.grows (h : g.Holds i) (hlayout : g.Layout j.scopes)
    (hgrows : g.Grows i.scopes j.scopes) (hwatches : j.watches = i.watches)
    (hbound : ∀ (id : ScopeId) (scope : Scope) (name : String) (d : Datum),
      j.scopes[id]? = some scope → (name, d) ∈ scope.bindings →
        g.Value j.scopes d ∨ ∃ (before : Scope) (other : String),
          i.scopes[id]? = some before ∧ (other, d) ∈ before.bindings) : g.Holds j := by
  refine ⟨hlayout, fun id scope name d hscope hmem => ?_, ?_⟩
  · rcases hbound id scope name d hscope hmem with hvalue | ⟨before, other, hbefore, hmem⟩
    · exact hvalue
    · exact (h.bound id before other d hbefore hmem).grows hgrows
  · rw [hwatches]
    intro watch hwatch handler hhandler
    exact (h.watches watch hwatch handler hhandler).grows hgrows

theorem Holds.push (h : g.Holds i) {scope : Scope} (hscopes : j.scopes = i.scopes.push scope)
    (hlayout : g.Layout j.scopes) (hgrows : g.Grows i.scopes j.scopes)
    (hwatches : j.watches = i.watches)
    (hvalues : ∀ name d, (name, d) ∈ scope.bindings → g.Value j.scopes d) : g.Holds j := by
  refine h.grows hlayout hgrows hwatches fun id found name d hfound hmem => ?_
  rw [hscopes, Array.getElem?_push] at hfound
  split at hfound
  · cases hfound
    exact .inl (hvalues name d hmem)
  · exact .inr ⟨found, name, hfound, hmem⟩

theorem Holds.assign (h : g.Holds i) {scope : ScopeId} (hplace : g.place i.scopes scope)
    (hd : g.Value i.scopes d) (name : String) :
    g.Grows i.scopes (i.define scope name d).scopes ∧ g.Holds (i.define scope name d) := by
  obtain ⟨hlayout, hgrows⟩ := g.assign name d h.layout hplace
  refine ⟨hgrows, h.grows hlayout hgrows rfl fun id found other old hfound hmem => ?_⟩
  rw [Interpreter.define, ScopeTable.getElem?_assign] at hfound
  split at hfound
  · obtain ⟨before, hbefore, rfl⟩ := Option.map_eq_some_iff.1 hfound
    rcases Bindings.mem_assign hmem with heq | hmem
    · cases heq
      exact .inl (hd.grows hgrows)
    · exact .inr ⟨before, other, hbefore, hmem⟩
  · exact .inr ⟨found, other, hfound, hmem⟩

theorem Holds.request (h : g.Holds i) (file : String) : g.Holds (i.request file) :=
  ⟨h.layout, h.bound, h.watches⟩

theorem value_scriptScope {folder file name : String}
    (h : (name, d) ∈ (Evaluation.scriptScope folder file).bindings) : g.Value t d := by
  simp only [Evaluation.scriptScope, List.mem_cons, List.not_mem_nil, or_false,
    Prod.mk.injEq] at h
  rcases h with ⟨_, rfl⟩ | ⟨_, rfl⟩ | ⟨_, rfl⟩ | ⟨_, rfl⟩ <;> exact .atom (by simp) (by simp)

theorem Holds.openScript (h : g.Holds i) (folder file : String) :
    g.Grows i.scopes (i.openScript folder file).scopes ∧ g.Holds (i.openScript folder file) := by
  obtain ⟨hlayout, hgrows, _⟩ := g.script folder file h.layout
  exact ⟨hgrows, h.push rfl hlayout hgrows rfl fun _ _ => value_scriptScope⟩

theorem Holds.openCall (h : g.Holds i) {parameters body : Datum} {outer : ScopeId}
    {bindings : Bindings} (hf : g.Value i.scopes (.closure parameters body outer))
    (hvalues : ∀ name d, (name, d) ∈ bindings → g.Value i.scopes d) :
    g.Grows i.scopes (i.openCall bindings outer).scopes ∧ g.Holds (i.openCall bindings outer) ∧
      g.Code (i.openCall bindings outer).scopes i.scopes.size body := by
  obtain ⟨houter, hbody⟩ := hf.of_closure
  obtain ⟨hlayout, hgrows, hplace, hadmits⟩ := g.call bindings h.layout houter
  refine ⟨hgrows, h.push rfl hlayout hgrows rfl ?_, hplace, ?_⟩
  · exact fun name d hmem => (hvalues name d hmem).grows hgrows
  · exact hbody.mono (fun _ => g.place_of_grows hgrows) (fun _ _ => g.admits_of_grows hgrows)
      hadmits

variable (g)

/-- The regime of a geography. -/
def regime : Regime where
  Holds := g.Holds
  Step _ i j := g.Grows i.scopes j.scopes ∧ (g.Holds i → g.Holds j)
  code i := g.Code i.scopes
  value i := g.Value i.scopes
  loads := True
  step_refl _ i := ⟨g.grows_refl i.scopes, id⟩
  step_trans hij hjk := ⟨g.grows_trans hij.1 hjk.1, fun hi => hjk.2 (hij.2 hi)⟩
  step_widen _ h := h
  holds_of_step h := h.2
  code_of_step h hx := hx.grows h.1
  value_of_step h hd := hd.grows h.1
  value_closed _ := Datum.Sound.dataClosed
  value_erase h := h.2.erase
  value_closure hparameters hbody := .closure hbody.1 hparameters.2.erase hbody.2
  value_bound hi hscope hmem := hi.bound _ _ _ _ hscope hmem
  code_item h hitem := ⟨h.1, h.2.item hitem⟩
  loads_of_loader _ _ := trivial
  step_still h :=
    ⟨h.scopes ▸ g.grows_refl _, fun hi =>
      hi.grows (h.scopes ▸ hi.layout) (h.scopes ▸ g.grows_refl _) h.watches
        fun id scope name d hscope hmem => .inr ⟨scope, name, h.scopes ▸ hscope, hmem⟩⟩
  step_define name hi hx hd :=
    ⟨(hi.assign hx.1 hd name).1, fun hi => (hi.assign hx.1 hd name).2⟩
  step_request i file _ := ⟨g.grows_refl i.scopes, fun hi => hi.request file⟩
  step_register hhandler := by
    refine ⟨g.grows_refl _, fun hi => ⟨hi.layout, hi.bound, fun watch hwatch => ?_⟩⟩
    rcases List.mem_append.1 hwatch with hwatch | hwatch
    · exact hi.watches watch hwatch
    · rw [List.mem_singleton.1 hwatch]
      exact hhandler
  holds_call hi hf hvalues := (hi.openCall hf hvalues).2
  step_call hi hf hvalues h :=
    have hopened := hi.openCall hf hvalues
    ⟨g.grows_trans hopened.1 h.1, fun _ => h.2 hopened.2.1⟩
  holds_script folder file _ hi := ((hi.request file).openScript folder file).2
  code_script folder _ hi hscan x hx := by
    obtain ⟨_, _, hplace, hadmits⟩ := g.script folder _ hi.layout
    exact ⟨hplace, Datum.Sound.of_scan hscan hadmits x hx⟩
  step_script _ hi h :=
    have hopened := (hi.request _).openScript _ _
    ⟨g.grows_trans hopened.1 h.1, fun _ => h.2 hopened.2⟩

/-! ## Interpreters as they start -/

variable {g}

theorem value_declaredBindings {c : Catalogue} {name : String}
    (h : (name, d) ∈ declaredBindings c) : g.Value t d := by
  obtain ⟨entry, _, hbinding⟩ := List.mem_filterMap.1 h
  obtain ⟨f, _, heq⟩ := Option.map_eq_some_iff.1 hbinding
  cases heq
  exact .atom (by simp) (by simp)

theorem value_initial {id : ScopeId} {scope : Scope} {name : String}
    (hscope : Interpreter.initial.scopes[id]? = some scope) (hmem : (name, d) ∈ scope.bindings) :
    g.Value t d := by
  obtain rfl : scope = _ := Array.mem_singleton.1 (Array.mem_of_getElem? hscope)
  rcases List.mem_cons.1 hmem with heq | hmem
  · cases heq
    exact Datum.Sound.dataClosed.bool true
  rcases List.mem_cons.1 hmem with heq | hmem
  · cases heq
    exact Datum.Sound.dataClosed.bool false
  exact value_declaredBindings hmem

theorem holds_initial (hlayout : g.Layout Interpreter.initial.scopes) : g.Holds .initial :=
  ⟨hlayout, fun _ _ _ _ hscope hmem => value_initial hscope hmem,
    fun _ hwatch => absurd hwatch List.not_mem_nil⟩

theorem holds_withShell {folder : String}
    (hlayout : g.Layout (Interpreter.initial.withShell folder).scopes) :
    g.Holds (Interpreter.initial.withShell folder) := by
  refine ⟨hlayout, fun id scope name d hscope hmem => ?_,
    fun _ hwatch => absurd hwatch List.not_mem_nil⟩
  rw [Interpreter.withShell, Array.getElem?_push] at hscope
  split at hscope
  · cases hscope
    exact value_declaredBindings hmem
  · exact value_initial hscope hmem

/-! ## Histories -/

open Session Evaluation

variable {takes : ScopeTable → String → ScopeId → Prop} {start : Interpreter}
  {values : List Datum} {a : Activity}

theorem Holds.given (hi : g.Holds i) (hvalues : ∀ d ∈ values, g.Value i.scopes d)
    (h : Given i values d) : g.Value i.scopes d := by
  induction h with
  | returned h => exact hvalues _ h
  | handler hwatch h => exact hi.watches _ hwatch _ h
  | nil => exact Datum.Sound.dataClosed.nil
  | bool b => exact Datum.Sound.dataClosed.bool b
  | text text => exact Datum.Sound.dataClosed.text text
  | symbol name => exact Datum.Sound.dataClosed.symbol name
  | number n => exact Datum.Sound.dataClosed.number n
  | list _ ih => exact Datum.Sound.dataClosed.list ih

variable (htakes : ∀ t source id, takes t source id → g.Layout t →
  g.place t id ∧ ∀ p : Position, p.source = source → g.admits t id p)
include htakes

theorem Holds.asked (hi : g.Holds i) (hvalues : ∀ d ∈ values, g.Value i.scopes d)
    (h : Asked takes i values a) : a.Within g.regime i := by
  cases h with
  | text hscan hx hscope =>
    obtain ⟨hplace, hadmits⟩ := htakes _ _ _ hscope hi.layout
    exact ⟨hplace, Datum.Sound.of_scan hscan hadmits _ hx⟩
  | data hx hscope => exact ⟨(htakes _ _ _ hscope hi.layout).1, (hi.given hvalues hx).anywhere⟩
  | apply hf hargs => exact ⟨hi.given hvalues hf, fun a ha => hi.given hvalues (hargs a ha)⟩
  | call hargs => exact ⟨.atom (by simp) (by simp), fun a ha => hi.given hvalues (hargs a ha)⟩

/-- Every history keeps the regime, and gives values of it. -/
theorem Holds.history (hstart : g.Holds start) (h : History takes start values i) :
    g.Holds i ∧ ∀ d ∈ values, g.Value i.scopes d := by
  induction h with
  | start => exact ⟨hstart, fun _ hmem => absurd hmem List.not_mem_nil⟩
  | @value values i j a depth d _ ha hrun ih =>
    -- earlier values stay values, since the scopes only grow
    obtain ⟨hi, hvalues⟩ := ih
    obtain ⟨hstep, hvalue⟩ := (hi.asked htakes hvalues ha).leads hi depth
    rw [hrun] at hstep hvalue
    refine ⟨hstep.2 hi, fun other hmem => ?_⟩
    rcases List.mem_cons.1 hmem with rfl | hmem
    · exact hvalue _ rfl
    · exact (hvalues other hmem).grows hstep.1
  | @failure values i j a depth failure _ ha hrun ih =>
    obtain ⟨hi, hvalues⟩ := ih
    obtain ⟨hstep, _⟩ := (hi.asked htakes hvalues ha).leads hi depth
    rw [hrun] at hstep
    exact ⟨hstep.2 hi, fun other hmem => (hvalues other hmem).grows hstep.1⟩
  | script folder file _ ih =>
    obtain ⟨hi, hvalues⟩ := ih
    obtain ⟨hgrows, hopened⟩ := hi.openScript folder file
    exact ⟨hopened, fun other hmem => (hvalues other hmem).grows hgrows⟩
  | outside _ hscopes hwatches ih =>
    obtain ⟨hi, hvalues⟩ := ih
    refine ⟨⟨?_, ?_, ?_⟩, ?_⟩
    · rw [hscopes]
      exact hi.layout
    · rw [hscopes]
      exact hi.bound
    · rw [hscopes, hwatches]
      exact hi.watches
    · rw [hscopes]
      exact hvalues

end Geography

end Reckoner
