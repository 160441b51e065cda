import Reckoner.Proofs.Evaluation.Discipline

/-!
# Values have the types that the check infers

The check of an expression gives it a type from a table: the declarations say what functions return.
`Catalogue.Truthful` is that a table tells the truth, which is proved of the functions of an
interpreter without access to the outside, one builtin after another.  From a truthful table the
type of an expression follows by looking at its head alone: the function is found before anything
else in a call is evaluated, so no argument can change which function it is.

The number of arguments matters.  Arithmetic gives a single argument back as it is, whatever its
type; it returns numbers because it is declared to take two.
-/

namespace Reckoner

/-- What a chain of computations gives, its first one gives something for. -/
theorem exists_of_bind_ok {ε α β : Type} {x : Except ε α} {f : α → Except ε β} {b : β}
    (h : (x >>= f) = .ok b) : ∃ a, x = .ok a ∧ f a = .ok b := by
  cases x with
  | error e => cases h
  | ok a => exact ⟨a, rfl, h⟩

/-! ## Values of a type -/

namespace Datum

/-- The alternatives of types, apart from `any`, that a value is of. -/
def sorts : Datum → List String
  | .nil => ["nil"]
  | .bool _ => ["bool"]
  | .text _ => ["string"]
  | .number (.int32 _) => ["int", "number"]
  | .number (.int64 _) => ["int", "number"]
  | .number (.bigint _) => ["int", "number"]
  | .number _ => ["number"]
  | .reference _ => ["number"]
  | .list .. => ["list"]
  | .closure .. => ["func"]
  | .native _ => ["func"]
  | .symbol _ => []
  | .host _ => []

/-- A value inhabits a type if it is of one of the alternatives. -/
def Inhabits (v : Datum) (type : TypeExpr) : Prop :=
  ∃ a ∈ type.alternatives, a = "any" ∨ a ∈ v.sorts

instance (v : Datum) (type : TypeExpr) : Decidable (v.Inhabits type) :=
  inferInstanceAs (Decidable (∃ a ∈ type.alternatives, a = "any" ∨ a ∈ v.sorts))

theorem inhabits_of_mem {v : Datum} {a : String} (h : a ∈ v.sorts) : v.Inhabits ⟨[a]⟩ :=
  ⟨a, List.mem_singleton_self a, .inr h⟩

theorem inhabits_any (v : Datum) : v.Inhabits .any := ⟨"any", List.mem_singleton_self _, .inl rfl⟩

theorem inhabits_bool (b : Bool) : (Datum.bool b).Inhabits .bool :=
  inhabits_of_mem List.mem_cons_self

theorem inhabits_number (n : Number) : (Datum.number n).Inhabits .number := by
  refine inhabits_of_mem ?_
  cases n <;> simp [sorts]

theorem inhabits_int {n : Number} (h : n.kind = .int32 ∨ n.kind = .int64 ∨ n.kind = .bigint) :
    (Datum.number n).Inhabits .int := by
  refine inhabits_of_mem ?_
  cases n with
  | int32 | int64 | bigint => simp [sorts]
  | float64 | decimal => simp [Number.kind] at h

theorem inhabits_numberType (n : Number) : (Datum.number n).Inhabits (numberType n) := by
  cases n with
  | int32 | int64 | bigint => exact inhabits_int (by simp [Number.kind])
  | float64 | decimal => exact inhabits_number _

/-- Lists that are no quotation and no function have the type that their head is declared to
return. -/
theorem type_of_infer_ok {c : Catalogue} {position : Option Position} {head : Datum}
    {arguments : List Datum} {type : TypeExpr} (hquote : head ≠ .symbol "quote")
    (hlambda : head ≠ .symbol "lambda")
    (h : (Datum.list position (head :: arguments)).infer c = .ok type) :
    type = ((headDeclaration? c head).map (·.returns)).getD .any := by
  rw [infer.eq_14 c position head arguments hquote (fun _ _ h _ => hlambda h) hlambda] at h
  obtain ⟨_, _, h⟩ := exists_of_bind_ok h
  obtain ⟨_, _, h⟩ := exists_of_bind_ok h
  cases hd : headDeclaration? c head with
  | none =>
    rw [hd] at h
    cases h
    rfl
  | some d =>
    rw [hd] at h
    cases h
    rfl

theorem type_of_infer_lambda {c : Catalogue} {position : Option Position} {items : List Datum}
    {type : TypeExpr}
    (h : (Datum.list position (.symbol "lambda" :: items)).infer c = .ok type) : type = .func := by
  rcases items with _ | ⟨parameters, _ | ⟨body, _ | ⟨extra, rest⟩⟩⟩
  · cases h
    rfl
  · cases h
    rfl
  · rw [infer] at h
    obtain ⟨_, _, h⟩ := exists_of_bind_ok h
    cases h
    rfl
  · cases h
    rfl

end Datum

/-! ## Values that actions give -/

namespace Action

variable {α β : Type} {Q : β → Prop} {i : Interpreter}

/-- If an action gives a value, the value has a property. -/
def Gives (Q : α → Prop) (x : Action α) (i : Interpreter) : Prop :=
  ∀ a, (x.runFrom i).1 = .ok a → Q a

theorem gives_pure {b : β} (h : Q b) : Gives Q (pure b) i := by
  rintro a ha
  cases ha
  exact h

theorem gives_throw (failure : Failure) : Gives Q (throw failure) i := fun _ ha => by cases ha

theorem gives_fail (fault : Fault) : Gives Q (fail fault) i := gives_throw _

theorem gives_ofExcept {result : Except Fault β} (h : ∀ a, result = .ok a → Q a) :
    Gives Q (ofExcept id result) i := by
  cases result with
  | ok a => exact gives_pure (h a rfl)
  | error fault => exact gives_fail fault

theorem gives_bind {x : Action α} {f : α → Action β}
    (h : ∀ a j, x.runFrom i = (.ok a, j) → Gives Q (f a) j) : Gives Q (x >>= f) i := by
  rcases runFrom_cases x i with ⟨a, j, hx⟩ | ⟨failure, j, hx⟩
  · rw [Gives, runFrom_bind_ok hx]
    exact h a j hx
  · rw [Gives, runFrom_bind_error hx]
    rintro b ⟨⟩

theorem gives_located {x : Action β} (h : Gives Q x i) (position : Position) :
    Gives Q (located position x) i := by
  intro a ha
  rw [runFrom_located] at ha
  refine h a ?_
  cases hx : (x.runFrom i).1 with
  | ok b =>
    rw [hx] at ha
    exact ha
  | error failure =>
    rw [hx] at ha
    cases ha

theorem gives_recorded {x : Action β} (name : Option String) (category : String)
    (h : Gives Q x (i.beginning name category)) : Gives Q (recorded name category x) i := by
  rw [Gives, runFrom_recorded]
  exact h

end Action

/-! ## What builtins return -/

namespace Builtin

open Reckoner.Action

/-- A builtin returns values of a type if it gets enough arguments. -/
def Returns (b : Builtin) (least : ℤ) (type : TypeExpr) : Prop :=
  ∀ (arguments : List Datum) (i : Interpreter), least ≤ arguments.length →
    Gives (·.Inhabits type) (b.run arguments) i

theorem returns_of_compute {b : Builtin} {least : ℤ} {type : TypeExpr}
    {result : List Datum → Except Fault Datum}
    (hcompute : ∀ arguments, b.compute? arguments = some (result arguments))
    (h : ∀ arguments v, least ≤ arguments.length → result arguments = .ok v → v.Inhabits type) :
    b.Returns least type := by
  intro arguments i hleast
  unfold run
  rw [hcompute]
  exact gives_ofExcept fun v hv => h arguments v hleast hv

theorem inhabits_ofNumber {result : Except NumberError Number} {v : Datum}
    (h : ofNumber result = .ok v) : v.Inhabits .number := by
  cases result with
  | ok n =>
    cases h
    exact Datum.inhabits_number n
  | error e => cases h

theorem inhabits_ofBool {result : Except NumberError Bool} {v : Datum}
    (h : ofBool result = .ok v) : v.Inhabits .bool := by
  cases result with
  | ok b =>
    cases h
    exact Datum.inhabits_bool b
  | error e => cases h

/-- Two or more arguments combine to a number, whatever they are. -/
theorem inhabits_combine {operation : Operand → Operand → Except NumberError Number}
    {start next v : Datum} {rest : List Datum}
    (h : combine operation (start :: next :: rest) = .ok v) : v.Inhabits .number := by
  rw [combine] at h
  induction rest generalizing start next with
  | nil =>
    obtain ⟨total, htotal, h⟩ := exists_of_bind_ok h
    cases h
    exact inhabits_ofNumber htotal
  | cons x rest ih =>
    obtain ⟨total, _, h⟩ := exists_of_bind_ok h
    exact ih h

theorem kind_convert {n m : Number} {k : Kind} (h : n.convert k = .ok m) : m.kind = k := by
  cases k with
  | int32 | int64 =>
    obtain ⟨value, _, h⟩ := exists_of_bind_ok h
    split at h
    · cases h
      rfl
    · cases h
  | float64 =>
    cases h
    rfl
  | bigint =>
    obtain ⟨value, _, h⟩ := exists_of_bind_ok h
    cases h
    rfl
  | decimal =>
    unfold Number.convert at h
    dsimp only at h
    split at h
    · cases h
      rfl
    · cases h

theorem eq_number_of_ofNumber {result : Except NumberError Number} {v : Datum}
    (h : ofNumber result = .ok v) : ∃ n, result = .ok n ∧ v = .number n := by
  cases result with
  | ok n =>
    cases h
    exact ⟨n, rfl, rfl⟩
  | error e => cases h

/-- A constructor gives numbers of its kind. -/
theorem exists_of_construct {kind : Kind} {read : String → Except NumberTextFault Number}
    {arguments : List Datum} {v : Datum} (h : construct kind read arguments = .ok v) :
    ∃ n, v = .number n ∧ n.kind = kind := by
  obtain ⟨a, _, ha⟩ := exists_of_bind_ok h
  split at ha
  · split at ha
    · obtain ⟨n, hn, rfl⟩ := eq_number_of_ofNumber ha
      exact ⟨n, rfl, kind_convert hn⟩
    · cases ha
  · obtain ⟨n, hn, rfl⟩ := eq_number_of_ofNumber ha
    refine ⟨n, rfl, ?_⟩
    unfold Operand.convert Operand.unary at hn
    split at hn
    · exact kind_convert hn
    · cases hn

theorem inhabits_construct_int {kind : Kind}
    (hkind : kind = .int32 ∨ kind = .int64 ∨ kind = .bigint)
    {read : String → Except NumberTextFault Number} {arguments : List Datum} {v : Datum}
    (h : construct kind read arguments = .ok v) : v.Inhabits .int := by
  obtain ⟨n, rfl, rfl⟩ := exists_of_construct h
  exact Datum.inhabits_int hkind

theorem inhabits_construct {kind : Kind} {read : String → Except NumberTextFault Number}
    {arguments : List Datum} {v : Datum} (h : construct kind read arguments = .ok v) :
    v.Inhabits .number := by
  obtain ⟨n, rfl, -⟩ := exists_of_construct h
  exact Datum.inhabits_number n

variable {b : Builtin} {arguments : List Datum}

/-! ### Families of builtins -/

theorem returns_combine {operation : Operand → Operand → Except NumberError Number}
    (h : ∀ arguments, b.compute? arguments = some (combine operation arguments)) :
    b.Returns 2 .number := by
  refine returns_of_compute h fun arguments v hleast hv => ?_
  rcases arguments with _ | ⟨x, _ | ⟨y, rest⟩⟩
  · cases hv
  · exact absurd hleast (by simp)
  · exact inhabits_combine hv

theorem returns_related {relation : Operand → Operand → Except NumberError Bool}
    (h : ∀ arguments, b.compute? arguments = some (ofBool (related relation arguments)))
    (least : ℤ) : b.Returns least .bool :=
  returns_of_compute h fun _ _ _ hv => inhabits_ofBool hv

theorem returns_onFirst {operation : Operand → Except NumberError Number}
    (h : ∀ arguments, b.compute? arguments = some (onFirst operation arguments)) (least : ℤ) :
    b.Returns least .number := by
  refine returns_of_compute h fun _ v _ hv => ?_
  obtain ⟨_, _, hv⟩ := exists_of_bind_ok hv
  exact inhabits_ofNumber hv

/-- A test of the first argument. -/
theorem returns_test {test : Datum → Bool}
    (h : ∀ arguments, b.compute? arguments =
      some (first arguments >>= fun a => pure (.bool (test a)))) (least : ℤ) :
    b.Returns least .bool := by
  refine returns_of_compute h fun _ v _ hv => ?_
  obtain ⟨a, _, hv⟩ := exists_of_bind_ok hv
  cases hv
  exact Datum.inhabits_bool _

theorem returns_construct_int {kind : Kind}
    (hkind : kind = .int32 ∨ kind = .int64 ∨ kind = .bigint)
    {read : String → Except NumberTextFault Number}
    (h : ∀ arguments, b.compute? arguments = some (construct kind read arguments)) (least : ℤ) :
    b.Returns least .int :=
  returns_of_compute h fun _ _ _ hv => inhabits_construct_int hkind hv

theorem returns_construct {kind : Kind} {read : String → Except NumberTextFault Number}
    (h : ∀ arguments, b.compute? arguments = some (construct kind read arguments)) (least : ℤ) :
    b.Returns least .number :=
  returns_of_compute h fun _ _ _ hv => inhabits_construct hv

theorem returns_any (b : Builtin) (least : ℤ) : b.Returns least .any :=
  fun _ _ _ v _ => Datum.inhabits_any v

/-! ### Single builtins -/

theorem returns_numericKind (least : ℤ) : numericKind.Returns least .string := by
  refine returns_of_compute (fun _ => rfl) fun _ v _ hv => ?_
  obtain ⟨a, _, hv⟩ := exists_of_bind_ok hv
  unfold kindName at hv
  split at hv
  · cases hv
    exact Datum.inhabits_of_mem List.mem_cons_self
  · cases hv
    exact Datum.inhabits_of_mem List.mem_cons_self
  · cases hv

/-- A single argument is negated, not given back. -/
theorem returns_subtract : subtract.Returns 1 .number := by
  refine returns_of_compute (fun _ => rfl) fun arguments v hleast hv => ?_
  rcases arguments with _ | ⟨x, _ | ⟨y, rest⟩⟩
  · cases hv
  · exact inhabits_ofNumber hv
  · exact inhabits_combine hv

theorem returns_list (least : ℤ) : list.Returns least .list := by
  refine returns_of_compute (fun _ => rfl) fun arguments v _ hv => ?_
  cases hv
  exact Datum.inhabits_of_mem List.mem_cons_self

theorem returns_help (least : ℤ) : help.Returns least .nil :=
  fun _ _ _ => gives_bind fun _ _ _ => gives_pure (Datum.inhabits_of_mem List.mem_cons_self)

/-- An error is raised, so there is no value. -/
theorem returns_error (least : ℤ) (type : TypeExpr) : error.Returns least type :=
  fun _ _ _ => gives_bind fun _ _ _ => gives_bind fun _ _ _ => gives_fail _

end Builtin

/-! ## The declarations -/

namespace Catalogue

open Reckoner.Evaluation

/-- The declared functions are builtins that return what is declared, under names that are free. -/
def Truthful (c : Catalogue) : Prop :=
  ∀ name d, c.find? name = some d → keyword? name = none ∧
    ∃ b, d.function = some (.builtin b) ∧ b.Returns d.least d.returns

variable {c : Catalogue}

theorem truthful_empty : ({} : Catalogue).Truthful := fun _ _ h => by cases h

theorem Truthful.addTitle (hc : c.Truthful) (title : String) : (c.addTitle title).Truthful := hc

theorem truthful_declareBuiltin {b : Builtin} {name returns : String} {least : ℤ}
    {description : String} {most : ℤ} {parameters : List (String × String × String)}
    (hname : keyword? name = none) (hb : b.Returns least (TypeExpr.ofText returns))
    (hc : c.Truthful) :
    (c.declareBuiltin b name description least most parameters returns).Truthful := by
  intro other d hd
  rw [find?, declareBuiltin, add, List.lookup_cons] at hd
  split at hd
  · rename_i heq
    cases hd
    rw [beq_iff_eq.1 heq]
    exact ⟨hname, b, rfl, hb⟩
  · exact hc other d hd

-- the declarations are gone through from the last to the first
theorem truthful_declareArithmetic (hc : c.Truthful) : c.declareArithmetic.Truthful := by
  unfold declareArithmetic declareVariadic declareUnary
  -- `sqrt`, `square` and `neg`
  iterate 3 refine truthful_declareBuiltin rfl (Builtin.returns_onFirst (fun _ => rfl) _) ?_
  -- the relations
  iterate 5 refine truthful_declareBuiltin rfl (Builtin.returns_related (fun _ => rfl) _) ?_
  -- `/` and `*`
  iterate 2 refine truthful_declareBuiltin rfl (Builtin.returns_combine fun _ => rfl) ?_
  refine truthful_declareBuiltin rfl Builtin.returns_subtract ?_
  refine truthful_declareBuiltin rfl (Builtin.returns_combine fun _ => rfl) ?_
  refine truthful_declareBuiltin rfl (Builtin.returns_numericKind _) ?_
  refine truthful_declareBuiltin rfl (Builtin.returns_test (fun _ => rfl) _) ?_
  exact hc.addTitle _

theorem truthful_declareKinds (hc : c.Truthful) : c.declareKinds.Truthful := by
  unfold declareKinds declareKind
  -- `decimal` and `float`
  iterate 2 refine truthful_declareBuiltin rfl (Builtin.returns_construct (fun _ => rfl) _) ?_
  -- the integers
  iterate 3
    refine truthful_declareBuiltin rfl
      (Builtin.returns_construct_int (by decide) (fun _ => rfl) _) ?_
  exact hc.addTitle _

theorem truthful_declareCore (hc : c.Truthful) : c.declareCore.Truthful := by
  unfold declareCore
  refine truthful_declareBuiltin rfl (Builtin.returns_any _ _) ?_
  refine truthful_declareBuiltin rfl (Builtin.returns_error _ _) ?_
  refine truthful_declareBuiltin rfl (Builtin.returns_test (fun _ => rfl) _) ?_
  refine truthful_declareBuiltin rfl (Builtin.returns_list _) ?_
  refine truthful_declareBuiltin rfl (Builtin.returns_help _) ?_
  exact hc.addTitle _

theorem truthful_standard : Catalogue.standard.Truthful :=
  truthful_declareCore (truthful_declareKinds (truthful_declareArithmetic truthful_empty))

end Catalogue

/-! ## Expressions -/

/-- Seen from a scope, there is no access to the outside: every declared name is declared as in an
interpreter as it starts, and denotes its function. -/
def Interpreter.Sandboxed (i : Interpreter) (scope : ScopeId) : Prop :=
  ∀ name d, i.catalogue.find? name = some d → Catalogue.standard.find? name = some d ∧
    ∀ f, d.function = some f → i.scopes.lookup scope name = some (.native f)

/-- The native function that a value is. -/
def Datum.native? : Datum → Option Native
  | .native f => some f
  | _ => none

theorem Datum.eq_native_of_native? {v : Datum} {f : Native} (h : v.native? = some f) :
    v = .native f := by
  cases v <;> cases h
  rfl

theorem Interpreter.sandboxed_initial : Interpreter.initial.Sandboxed globalScope := by
  have hall : Catalogue.standard.byName.all (fun entry =>
      (initial.scopes.lookup globalScope entry.1).bind Datum.native? ==
        entry.2.function) = true := by
    decide +kernel
  intro name d hd
  refine ⟨hd, fun f hf => ?_⟩
  have hentry := beq_iff_eq.1 (List.all_eq_true.1 hall (name, d) (mem_of_lookup hd))
  obtain ⟨v, hv, hnative⟩ := Option.bind_eq_some_iff.1 (hentry.trans hf)
  rw [hv, Datum.eq_native_of_native? hnative]

namespace Evaluation

open Reckoner.Action

variable {i : Interpreter} {scope : ScopeId} {depth : ℕ} {x : Datum} {type : TypeExpr}

/-- The function of a call is the one that its name denotes before the arguments are evaluated. -/
theorem gives_evalCall {name : String} {b : Builtin} {least : ℤ} {arguments : List Datum}
    (hname : i.scopes.lookup scope name = some (.native (.builtin b))) (hb : b.Returns least type)
    (hleast : least ≤ arguments.length) :
    Gives (·.Inhabits type) (evalCall (evaluator depth) scope (.symbol name) arguments) i := by
  rw [evalCall_eq_applyStep]
  refine gives_bind fun function j hfunction => gives_bind fun values k hvalues => ?_
  cases depth with
  | zero => cases hfunction
  | succ depth =>
    cases (runFrom_evalStep_bound (evaluator depth) hname).symm.trans hfunction
    rw [applyStep, applyNative_eq]
    refine gives_bind fun l m hget => gives_recorded _ _ (hb values _ ?_)
    rw [length_evalArguments hvalues]
    exact hleast

theorem gives_evalLambda (items : List Datum) :
    Gives (·.Inhabits .func) (evalLambda scope items) i := by
  unfold evalLambda
  split
  · exact gives_pure (Datum.inhabits_of_mem List.mem_cons_self)
  · exact gives_fail _

theorem gives_evalList (hnames : i.Sandboxed scope) {position : Option Position}
    {items : List Datum} (hx : (Datum.list position items).infer i.catalogue = .ok type) :
    Gives (·.Inhabits type) (evalList (evaluator depth) scope items) i := by
  cases items with
  | nil =>
    cases hx
    exact gives_pure (Datum.inhabits_of_mem List.mem_cons_self)
  | cons head arguments =>
    by_cases hquote : head = .symbol "quote"
    · subst hquote
      cases hx
      exact fun v _ => v.inhabits_any
    by_cases hlambda : head = .symbol "lambda"
    · subst hlambda
      rw [Datum.type_of_infer_lambda hx]
      exact gives_evalLambda arguments
    obtain ⟨hcount, -⟩ := Datum.checks_of_infer_ok hquote hlambda hx
    rw [Datum.type_of_infer_ok hquote hlambda hx]
    cases hd : Datum.headDeclaration? i.catalogue head with
    | none => exact fun v _ => v.inhabits_any
    | some d =>
      rw [hd] at hcount
      cases head
      case symbol name =>
        obtain ⟨hstandard, hbound⟩ := hnames name d hd
        obtain ⟨hkeyword, b, hfunction, hb⟩ := Catalogue.truthful_standard name d hstandard
        have hhead : headKeyword? (.symbol name) = none := hkeyword
        rw [evalList_of_headKeyword? hhead]
        exact gives_evalCall (hbound _ hfunction) hb (Datum.bounds_of_checkCount hcount).1
      all_goals cases hd

/-- The type that the check infers is right.  Without access to the outside, and as long as every
declared name denotes its function, the value of an expression inhabits its type. -/
theorem inhabits_of_infer {v : Datum} {j : Interpreter} (hnames : i.Sandboxed scope)
    (hx : x.infer i.catalogue = .ok type)
    (hv : ((evaluator depth).eval x scope).runFrom i = (.ok v, j)) : v.Inhabits type := by
  suffices hgives : Gives (·.Inhabits type) ((evaluator depth).eval x scope) i by
    exact hgives v (congrArg Prod.fst hv)
  cases depth with
  | zero => exact gives_throw _
  | succ depth =>
    change Gives _ (evalStep (evaluator depth) x scope) i
    cases x
    case list position items =>
      have hitems : Gives (·.Inhabits type) (evalList (evaluator depth) scope items) i :=
        gives_evalList hnames hx
      cases position with
      | none => exact hitems
      | some position => exact gives_located hitems position
    case symbol name =>
      cases hx
      exact fun v _ => v.inhabits_any
    case host h => exact gives_fail _
    case number n =>
      cases hx
      exact gives_pure (Datum.inhabits_numberType n)
    all_goals
      cases hx
      exact gives_pure (Datum.inhabits_of_mem List.mem_cons_self)

theorem inhabits_of_infer_sum :
    let x := Datum.ofList [.symbol "+", .number (.int64 1), .ofList [.symbol "int32", .text "2"]]
    Interpreter.initial.Sandboxed globalScope ∧
      x.infer Interpreter.initial.catalogue = .ok .number ∧
      ((evaluator 3).eval x globalScope).runFrom .initial = (.ok (.number (.int64 3)), .initial) ∧
      (Datum.number (.int64 3)).Inhabits .number := by
  intro x
  have hx : x.infer Interpreter.initial.catalogue = .ok .number := by rfl
  have hv : ((evaluator 3).eval x globalScope).runFrom .initial =
      (.ok (.number (.int64 3)), .initial) := by rfl
  have hnames := Interpreter.sandboxed_initial
  exact ⟨hnames, hx, hv, inhabits_of_infer hnames hx hv⟩

end Evaluation

end Reckoner
