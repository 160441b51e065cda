import Reckoner.Proofs.Evaluation.Activity
import Reckoner.Proofs.Evaluation.Regime

/-!
# Everything that happens from the start on

* Inside an evaluation.  `Starts.within` says that an activity of a regime starts only activities of
  that regime, in states where it holds, and `Reaches.within` that everything that an activity leads
  to is one.  This is what tells about the arguments of the functions that are called on the way.
* From one evaluation to the next.  `History` is what a host can do with an interpreter: evaluate
  what it has read from texts, evaluate and apply the values that it got, run native functions, give
  a file that has changed a new scope, and change everything that is neither a scope nor a watched
  file.
-/

namespace Reckoner

/-! ## Inside an evaluation -/

namespace Evaluation

open Reckoner.Action Interpreter

/-- An activity is one of a regime. -/
def Activity.Within (r : Regime) (i : Interpreter) : Activity → Prop
  | .eval x scope => r.code i scope x
  | .apply f arguments => r.value i f ∧ ∀ a ∈ arguments, r.value i a
  | .call f arguments => r.value i (.native f) ∧ ∀ a ∈ arguments, r.value i a

/-- The scope whose code an activity evaluates. -/
def Activity.scope? : Activity → Option ScopeId
  | .eval _ scope => some scope
  | _ => none

variable {r : Regime} {below : Evaluator} {scope : ScopeId} {i k : Interpreter} {t : Activity}

theorem Activity.Within.leads (h : t.Within r i) (hi : r.Holds i) (depth : ℕ) :
    Leads (r.Step t.scope?) r.value (t.perform (evaluator depth)) i := by
  have hkeeps := evaluator_keeps r depth
  cases t with
  | eval x scope => exact hkeeps.eval hi h
  | apply f arguments => exact hkeeps.apply hi h.1 h.2
  | call f arguments => exact leads_runNative hkeeps hi h.1 h.2

/-- A note in a trace changes nothing for a regime. -/
theorem Activity.Within.beginning (h : t.Within r i) (hi : r.Holds i) (name : Option String)
    (category : String) :
    r.Holds (i.beginning name category) ∧ t.Within r (i.beginning name category) := by
  have hstill : Still i (i.beginning name category) := by
    unfold Interpreter.beginning
    split <;> exact ⟨⟨rfl, rfl, rfl⟩, rfl⟩
  have hstep : r.Step none i (i.beginning name category) := r.step_still hstill
  refine ⟨r.holds_of_step hstep hi, ?_⟩
  cases t with
  | eval x scope => exact r.code_of_step hstep h
  | apply f arguments =>
    exact ⟨r.value_of_step hstep h.1, fun a ha => r.value_of_step hstep (h.2 a ha)⟩
  | call f arguments =>
    exact ⟨r.value_of_step hstep h.1, fun a ha => r.value_of_step hstep (h.2 a ha)⟩

/-- What a regime has at the beginning of a run it has at the end. -/
theorem Evaluator.Keeps.of_eval {x value : Datum} {j : Interpreter} (hbelow : below.Keeps r)
    (hi : r.Holds i) (hx : r.code i scope x)
    (hrun : (below.eval x scope).runFrom i = (.ok value, j)) :
    r.Step (some scope) i j ∧ r.value j value := by
  obtain ⟨hstep, hvalue⟩ := hbelow.eval hi hx
  rw [hrun] at hstep hvalue
  exact ⟨hstep, hvalue value rfl⟩

theorem InOrder.within (hbelow : below.Keeps r) {admits : Interpreter → Datum → Prop}
    {xs : List Datum} (h : InOrder below scope admits xs i t k) (hi : r.Holds i)
    (hcode : ∀ x ∈ xs, r.code i scope x) : r.Holds k ∧ t.Within r k := by
  induction h with
  | here rest _ => exact ⟨hi, hcode _ List.mem_cons_self⟩
  | @later i j k x value rest t _ hx _ ih =>
    obtain ⟨hstep, _⟩ := Evaluator.Keeps.of_eval hbelow hi (hcode x List.mem_cons_self) hx
    exact ih (r.holds_of_step hstep hi) fun y hy =>
      r.code_of_step hstep (hcode y (List.mem_cons_of_mem x hy))

theorem InBranches.within (hbelow : below.Keeps r) {xs : List Datum}
    (h : InBranches below scope xs i t k) (hi : r.Holds i)
    (hcode : ∀ x ∈ xs, r.code i scope x) : r.Holds k ∧ t.Within r k := by
  induction h with
  | condition => exact ⟨hi, hcode _ List.mem_cons_self⟩
  | branch hcondition _ =>
    obtain ⟨hstep, _⟩ :=
      Evaluator.Keeps.of_eval hbelow hi (hcode _ List.mem_cons_self) hcondition
    exact ⟨r.holds_of_step hstep hi, r.code_of_step hstep (hcode _ (by simp))⟩
  | rest hcondition _ _ ih =>
    obtain ⟨hstep, _⟩ :=
      Evaluator.Keeps.of_eval hbelow hi (hcode _ List.mem_cons_self) hcondition
    exact ih (r.holds_of_step hstep hi) fun y hy => r.code_of_step hstep (hcode y (by simp [hy]))
  | last => exact ⟨hi, hcode _ List.mem_cons_self⟩

theorem InScript.within (hbelow : below.Keeps r) {folder file : String}
    (h : InScript below folder file i t k) (hloads : r.loads) (hi : r.Holds i) :
    r.Holds k ∧ t.Within r k := by
  cases h with
  | expression _ hscan h =>
    exact h.within hbelow (r.holds_script folder file hloads hi)
      (r.code_script folder hloads hi hscan)

theorem InNative.within (hbelow : below.Keeps r) {f : Native} {arguments : List Datum}
    (h : InNative below f arguments i t k) (hi : r.Holds i) (hf : r.value i (.native f))
    (hargs : ∀ a ∈ arguments, r.value i a) : r.Holds k ∧ t.Within r k := by
  cases h with
  | imported h => exact h.within hbelow (r.loads_of_loader hf rfl) hi
  | watched h => exact h.within hbelow (r.loads_of_loader hf rfl) hi
  | @handled owner folder content name handler rest i hread =>
    have hstep : r.Step none i (i.request (Path.resolve folder (i.display name))) :=
      r.step_request i _ (r.loads_of_loader hf rfl)
    refine ⟨r.holds_of_step hstep hi, r.value_of_step hstep (hargs _ (by simp)), ?_⟩
    intro a ha
    rw [List.mem_singleton.1 ha]
    exact (r.value_closed _).text _

theorem InApply.within {f : Datum} {arguments : List Datum} (h : InApply f arguments i t k)
    (hi : r.Holds i) (hf : r.value i f) (hargs : ∀ a ∈ arguments, r.value i a) :
    r.Holds k ∧ t.Within r k := by
  cases h with
  | body hbindings =>
    exact r.holds_call hi hf (value_of_callBindings (r.value_closed i) hargs hbindings)
  | native f arguments i =>
    have hcall : (Activity.call f arguments).Within r i := ⟨hf, hargs⟩
    exact hcall.beginning hi _ _

theorem InList.within (hbelow : below.Keeps r) {items : List Datum}
    (h : InList below scope items i t k) (hi : r.Holds i)
    (hcode : ∀ x ∈ items, r.code i scope x) : r.Holds k ∧ t.Within r k := by
  cases h with
  | item _ h => exact h.within hbelow hi hcode
  | applied _ hfunction hvalues h =>
    -- the function was a value before its arguments were evaluated, and has to be one after that
    obtain ⟨hstep, hf⟩ :=
      Evaluator.Keeps.of_eval hbelow hi (hcode _ List.mem_cons_self) hfunction
    have hlater := leads_evalArguments hbelow (r.holds_of_step hstep hi) fun x hx =>
      r.code_of_step hstep (hcode x (List.mem_cons_of_mem _ hx))
    rw [Leads, hvalues] at hlater
    obtain ⟨hstep', hargs⟩ := hlater
    exact h.within (r.holds_of_step hstep' (r.holds_of_step hstep hi))
      (r.value_of_step hstep' hf) (hargs _ rfl)
  | timed _ x rest i =>
    have heval : (Activity.eval x scope).Within r i := hcode x (by simp)
    exact heval.beginning hi _ _
  | branch _ h =>
    exact h.within hbelow hi fun x hx => hcode x (List.mem_cons_of_mem _ hx)
  | definition => exact ⟨hi, hcode _ (by simp)⟩
  | sequence _ h =>
    exact h.within hbelow hi fun x hx => hcode x (List.mem_cons_of_mem _ hx)

/-- What an activity of a regime starts is one of the regime. -/
theorem Starts.within {depth level : ℕ} {s : Activity} (h : Starts depth t i level s k)
    (hi : r.Holds i) (ht : t.Within r i) : r.Holds k ∧ s.Within r k := by
  cases h with
  | list h => exact h.within (evaluator_keeps r _) hi fun x hx => r.code_item ht hx
  | apply h => exact h.within hi ht.1 ht.2
  | call h => exact h.within (evaluator_keeps r _) hi ht.1 ht.2

/-- What an activity of a regime leads to is one of the regime. -/
theorem Reaches.within {depth level : ℕ} {s : Activity} (h : Reaches depth t i level s k)
    (hi : r.Holds i) (ht : t.Within r i) : r.Holds k ∧ s.Within r k := by
  induction h with
  | refl => exact ⟨hi, ht⟩
  | step hstarts _ ih =>
    obtain ⟨hj, hs⟩ := hstarts.within hi ht
    exact ih hj hs

end Evaluation

/-! ## From one evaluation to the next -/

namespace Session

open Reckoner.Evaluation

/-- The data that a host has: what it got from evaluations, the functions that wait for files to
change, and what it makes itself. -/
inductive Given (i : Interpreter) (values : List Datum) : Datum → Prop where
  | returned {d : Datum} (h : d ∈ values) : Given i values d
  | handler {watch : Watch} {d : Datum} (hwatch : watch ∈ i.watches)
      (h : watch.handler = some d) : Given i values d
  | nil : Given i values .nil
  | bool (b : Bool) : Given i values (.bool b)
  | text (text : String) : Given i values (.text text)
  | symbol (name : String) : Given i values (.symbol name)
  | number (n : Number) : Given i values (.number n)
  | list {items : List Datum} (h : ∀ item ∈ items, Given i values item) :
      Given i values (.ofList items)

/-- What a host can ask for, where `takes` says which scopes take texts of which sources. -/
inductive Asked (takes : ScopeTable → String → ScopeId → Prop) (i : Interpreter)
    (values : List Datum) : Activity → Prop where
  /-- The evaluation of an expression of a text. -/
  | text {source text : String} {tokens : List Token} {x : Datum} {scope : ScopeId}
      (hscan : Token.scan source text = .ok tokens)
      (hx : x ∈ (Program.ofTokens tokens).expressions) (hscope : takes i.scopes source scope) :
      Asked takes i values (.eval x scope)
  /-- The evaluation of data. -/
  | data {source : String} {x : Datum} {scope : ScopeId} (hx : Given i values x)
      (hscope : takes i.scopes source scope) : Asked takes i values (.eval x scope)
  | apply {f : Datum} {arguments : List Datum} (hf : Given i values f)
      (hargs : ∀ a ∈ arguments, Given i values a) : Asked takes i values (.apply f arguments)
  /-- The run of a native function, as when the command line names a file to import. -/
  | call {f : Native} {arguments : List Datum} (hargs : ∀ a ∈ arguments, Given i values a) :
      Asked takes i values (.call f arguments)

/-- What can have happened to an interpreter from its start on, with the values that the host got,
latest first. -/
inductive History (takes : ScopeTable → String → ScopeId → Prop) (start : Interpreter) :
    List Datum → Interpreter → Prop where
  | start : History takes start [] start
  | value {values : List Datum} {i j : Interpreter} {t : Activity} {depth : ℕ} {d : Datum}
      (h : History takes start values i) (ht : Asked takes i values t)
      (hrun : (t.perform (evaluator depth)).runFrom i = (.ok d, j)) :
      History takes start (d :: values) j
  | failure {values : List Datum} {i j : Interpreter} {t : Activity} {depth : ℕ}
      {failure : Failure} (h : History takes start values i) (ht : Asked takes i values t)
      (hrun : (t.perform (evaluator depth)).runFrom i = (.error failure, j)) :
      History takes start values j
  /-- A file is about to be loaded. -/
  | script {values : List Datum} {i : Interpreter} (folder file : String)
      (h : History takes start values i) : History takes start values (i.openScript folder file)
  /-- Files, settings, declarations and the like change. -/
  | outside {values : List Datum} {i j : Interpreter} (h : History takes start values i)
      (hscopes : j.scopes = i.scopes) (hwatches : j.watches = i.watches) :
      History takes start values j

end Session

end Reckoner
