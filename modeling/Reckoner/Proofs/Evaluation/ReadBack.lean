import Reckoner.Session
import Reckoner.Proofs.Datum.ReadBack
import Reckoner.Proofs.Decimal.Text
import Reckoner.Proofs.Decimal.Value
import Reckoner.Proofs.Evaluation.Evaluator
import Reckoner.Proofs.Number.Conversion

/-!
# Printed values evaluate to themselves

Doubles, texts and integers of 64 bits are printed as literals, truth values as names, and every
other number as a call of the constructor of its kind with one literal.  `evalText_of_spells` takes
the text to the one expression in it, up to positions; what remains is to check and to evaluate a
literal, a name or a call.

The result depends on what the names mean where the text is evaluated.  `KeepsNames` says that they
still mean what they mean at the start.  That is not enough, because calls are checked against the
declaration of the name and not against the value that it denotes: `AdmitsLiterals` says that the
declarations let the printed calls pass, as those of the start do.
-/

namespace Reckoner

open Reckoner.Action Token

/-! ## Spelling of calls -/

theorem escapeChar_digit {c : Char} (h : c = '-' ∨ c = '.' ∨ c.isDigit = true) :
    Datum.escapeChar c = [c] := by
  have hne {d : Char} (hd : d.isDigit = false) (hminus : d ≠ '-') (hpoint : d ≠ '.') : c ≠ d := by
    rintro rfl
    rcases h with rfl | rfl | h
    · exact hminus rfl
    · exact hpoint rfl
    · rw [h] at hd
      cases hd
  unfold Datum.escapeChar
  split
  · exact absurd rfl (hne (d := '\\') (by decide) (by decide) (by decide))
  · exact absurd rfl (hne (d := '"') (by decide) (by decide) (by decide))
  · exact absurd rfl (hne (d := '\r') (by decide) (by decide) (by decide))
  · exact absurd rfl (hne (d := '\n') (by decide) (by decide) (by decide))
  · rfl

theorem flatMap_escapeChar {chars : List Char}
    (h : ∀ c ∈ chars, c = '-' ∨ c = '.' ∨ c.isDigit = true) :
    chars.flatMap Datum.escapeChar = chars := by
  rw [List.flatMap_congr fun c hc => escapeChar_digit (h c hc), List.flatMap_singleton']

/-- A text with nothing to escape, between quotes. -/
theorem spells_quoted {text : String} (h : text.toList.flatMap Datum.escapeChar = text.toList) :
    Spells ("\"" ++ text ++ "\"").toList (.text text) := by
  have hspells := spells_text text
  rw [Datum.writeText, h] at hspells
  have heq : ("\"" ++ text ++ "\"").toList =
      (String.ofList ('"' :: text.toList ++ ['"'])).toList := by
    simp
  rwa [heq]

theorem spells_call {name text : String} {argument : Datum} (hname : SymbolChars name.toList)
    (h : Spells text.toList argument) :
    Spells ("(" ++ name ++ " " ++ text ++ ")").toList (.ofList [.symbol name, argument]) := by
  have hhead : Spells name.toList (.symbol name) := by
    have hsymbol := spells_symbol hname
    rwa [symbolAtom, String.ofList_toList] at hsymbol
  have hlist := (hhead.cons h.singleton).list none
  have heq : ("(" ++ name ++ " " ++ text ++ ")").toList =
      '(' :: (name.toList ++ ' ' :: text.toList ++ [')']) := by
    simp
  rwa [heq]

/-! ## What a spelling is up to positions -/

namespace Datum

theorem erase_of_ne_list {datum : Datum} (h : ∀ position items, datum ≠ .list position items) :
    datum.erase = datum := by
  cases datum
  case list position items => exact absurd rfl (h position items)
  all_goals simp [erase]

theorem eq_of_erase_eq {datum atom : Datum} (h : datum.erase = atom)
    (hatom : ∀ position items, atom ≠ .list position items) : datum = atom := by
  cases datum
  case list position items =>
    rw [erase] at h
    exact absurd h.symm (hatom _ _)
  all_goals rwa [erase] at h; simp

/-- An argument that evaluates to itself. -/
def isLiteral : Datum → Bool
  | .text _ => true
  | .number _ => true
  | _ => false

theorem infer_literal {datum : Datum} (h : datum.isLiteral = true) (c : Catalogue) :
    ∃ t, datum.infer c = .ok t := by
  cases datum
  case text s => exact ⟨_, infer.eq_2 c s⟩
  case number n => exact ⟨_, infer.eq_3 c n⟩
  all_goals cases h

theorem ne_list_of_isLiteral {datum : Datum} (h : datum.isLiteral = true)
    (position : Option Position) (items : List Datum) : datum ≠ .list position items := by
  rintro rfl
  cases h

/-- What is a call of one argument up to positions is a call. -/
theorem exists_call_of_erase_eq {datum argument : Datum} {name : String}
    (h : datum.erase = (Datum.ofList [.symbol name, argument]).erase) :
    ∃ position item, datum = .list position [.symbol name, item] ∧
      item.erase = argument.erase := by
  cases datum
  case list position items =>
    rw [ofList, erase, erase, eraseAll_eq_map, eraseAll_eq_map, List.map_cons, List.map_singleton]
      at h
    injection h with _ hitems
    obtain ⟨head, rest, rfl, hhead, hrest⟩ := List.map_eq_cons_iff.1 hitems
    obtain ⟨item, rest, rfl, hitem, hnil⟩ := List.map_eq_cons_iff.1 hrest
    obtain rfl := List.map_eq_nil_iff.1 hnil
    have hname : (symbol name).erase = .symbol name := erase_of_ne_list (by simp)
    obtain rfl := eq_of_erase_eq (hhead.trans hname) (by simp)
    exact ⟨position, item, rfl, hitem⟩
  all_goals simp [erase] at h

theorem eq_call_of_erase_eq {datum argument : Datum} {name : String}
    (h : datum.erase = (Datum.ofList [.symbol name, argument]).erase)
    (hargument : argument.isLiteral = true) :
    ∃ position, datum = .list position [.symbol name, argument] := by
  obtain ⟨position, item, rfl, hitem⟩ := exists_call_of_erase_eq h
  rw [erase_of_ne_list (ne_list_of_isLiteral hargument)] at hitem
  obtain rfl := eq_of_erase_eq hitem (ne_list_of_isLiteral hargument)
  exact ⟨position, rfl⟩

end Datum

/-- A text that spells a datum evaluates as the datum does, up to positions. -/
theorem evalText_of_spells {text : String} {datum : Datum} (h : Spells text.toList datum)
    (hsome : datum.erase ≠ .nil) (source : String) :
    ∃ found, found.erase = datum.erase ∧ ∀ {below : Evaluator} {scope : ScopeId} {i j : Interpreter}
      {t : TypeExpr} {value : Datum}, found.infer i.catalogue = .ok t →
        (below.eval found scope).runFrom i = (.ok value, j) →
        (Evaluation.evalText below source text scope).runFrom i = (.ok value, j) := by
  obtain ⟨tokens, found, hscan, hread, herase⟩ := read_of_spells h source
  have htokens : tokens ≠ [] := by
    rintro rfl
    cases hread
    exact hsome herase.symm
  have hprogram : Program.ofTokens tokens = ⟨[found], none⟩ :=
    Program.readFrom_eq_cons (.inr htokens) hread
  refine ⟨found, herase, fun {below scope i j t value} hcheck hrun => ?_⟩
  have heach : (Evaluation.evalEach below scope .nil [found]).runFrom i = (.ok value, j) := by
    rw [Evaluation.evalEach, runFrom_get_bind, hcheck,
      runFrom_bind_ok (runFrom_ofExcept_ok _ _ _), runFrom_bind_ok hrun]
    rfl
  rw [Evaluation.evalText, hscan, runFrom_bind_ok (runFrom_ofExcept_ok _ _ _)]
  simp only [hprogram]
  rw [runFrom_bind_ok heach]
  rfl

/-! ## Evaluating a call -/

/-- A trace does not change the value. -/
theorem runFrom_traced {α : Type} {x : Action α} {a : α} (h : ∀ i, x.runFrom i = (.ok a, i))
    (trace : ℕ) (name category : String) (i : Interpreter) :
    ∃ j, (traced trace name category x).runFrom i = (.ok a, j) := by
  rw [traced, runFrom_modify_bind, andThenAlways, runFrom_bind_ok (runFrom_tryCatch_ok (h _)),
    runFrom_modify_bind, runFrom_pure]
  exact ⟨_, rfl⟩

namespace Evaluation

variable {below : Evaluator} {b : Builtin} {name : String} {argument value : Datum}
  {arguments : List Datum} {scope : ScopeId} {i : Interpreter}

theorem runFrom_applyNative (h : b.compute? arguments = some (.ok value)) :
    ∃ j, (applyNative below (.builtin b) arguments).runFrom i = (.ok value, j) := by
  have hrun (k : Interpreter) :
      (runNative below (.builtin b) arguments).runFrom k = (.ok value, k) := by
    rw [runNative]
    unfold Builtin.run
    rw [h]
    rfl
  rw [applyNative, runFrom_get_bind]
  split
  · exact runFrom_traced hrun _ _ _ i
  · exact ⟨i, hrun i⟩

theorem runFrom_literal (depth : ℕ) (h : argument.isLiteral = true) (scope : ScopeId)
    (i : Interpreter) :
    ((evaluator (depth + 1)).eval argument scope).runFrom i = (.ok argument, i) := by
  cases argument
  case text => rfl
  case number => rfl
  all_goals cases h

theorem runFrom_call (depth : ℕ) (hname : keyword? name = none)
    (hbound : i.scopes.lookup scope name = some (.native (.builtin b)))
    (hargument : argument.isLiteral = true) (hcompute : b.compute? [argument] = some (.ok value))
    (position : Option Position) :
    ∃ j, ((evaluator (depth + 2)).eval (.list position [.symbol name, argument]) scope).runFrom i =
      (.ok value, j) := by
  have harguments : (evalArguments (evaluator (depth + 1)) scope [argument]).runFrom i =
      (.ok [argument], i) := by
    rw [evalArguments, runFrom_bind_ok (runFrom_literal depth hargument scope i)]
    rfl
  have hlist : ∃ j, (evalList (evaluator (depth + 1)) scope [.symbol name, argument]).runFrom i =
      (.ok value, j) := by
    have hhead : ((evaluator (depth + 1)).eval (.symbol name) scope).runFrom i =
        (.ok (.native (.builtin b)), i) :=
      runFrom_evalStep_bound (evaluator depth) hbound
    rw [evalList, hname]
    dsimp only
    rw [evalCall_eq_applyStep, runFrom_bind_ok hhead, runFrom_bind_ok harguments]
    exact runFrom_applyNative hcompute
  obtain ⟨j, hlist⟩ := hlist
  cases position with
  | none => exact ⟨j, hlist⟩
  | some position => exact ⟨j, runFrom_tryCatch_ok hlist⟩

end Evaluation

/-! ## Checking a call -/

/-- A declaration takes one argument of a type. -/
def Declaration.Admits (d : Declaration) (t : TypeExpr) : Prop :=
  d.least ≤ 1 ∧ 1 ≤ d.most ∧ t.fits (d.argumentType 0) = true

instance (d : Declaration) (t : TypeExpr) : Decidable (d.Admits t) :=
  inferInstanceAs (Decidable (_ ∧ _ ∧ _))

theorem Datum.infer_call {c : Catalogue} {name : String} {argument : Datum} {t : TypeExpr}
    (hname : Evaluation.keyword? name = none) (hargument : argument.infer c = .ok t)
    (hadmits : ∀ d, c.find? name = some d → d.Admits t) (position : Option Position) :
    ∃ s, (Datum.list position [.symbol name, argument]).infer c = .ok s := by
  have hquote : Datum.symbol name ≠ .symbol "quote" := by
    rintro ⟨⟩
    cases hname
  have hlambda : Datum.symbol name ≠ .symbol "lambda" := by
    rintro ⟨⟩
    cases hname
  have heq := infer.eq_14 c position (.symbol name) [argument] hquote (fun _ _ h _ => hlambda h)
    hlambda
  have hcount : checkCount (position.getD .unknown) (c.find? name) 1 = .ok () := by
    unfold checkCount
    split
    · rfl
    · rename_i d hd
      obtain ⟨hleast, hmost, -⟩ := hadmits d hd
      rw [if_neg (by simpa using hleast), if_neg (by simpa using hmost)]
  have harguments : checkArguments c (position.getD .unknown) (c.find? name) 0 [argument] =
      .ok () := by
    cases hd : c.find? name with
    | none =>
      rw [checkArguments, hargument]
      exact checkArguments.eq_1 c (position.getD .unknown) none 1
    | some d =>
      rw [checkArguments, hargument]
      exact (if_pos (hadmits d hd).2.2).trans (checkArguments.eq_1 c _ _ 1)
  rw [headDeclaration?, List.length_singleton, hcount, harguments] at heq
  exact ⟨_, heq⟩

/-! ## Constructors -/

theorem Builtin.construct_text {read : String → Except NumberTextFault Number} {text : String}
    {n : Number} (h : read text = .ok n) :
    construct n.kind read [.text text] = .ok (.number n) := by
  simp only [construct, first, bind, Except.bind, h, Number.convert_kind, ofNumber]

/-- The constructors that printed numbers call, with the type of the literal that they take. -/
def constructors : List (String × Builtin × TypeExpr) :=
  [("int32", .toInt32, .int), ("bigint", .toBigint, .string), ("float", .toFloat, .string),
    ("decimal", .toDecimal, .string)]

theorem symbolChars_constructor {name : String} {b : Builtin} {t : TypeExpr}
    (h : (name, b, t) ∈ constructors) : SymbolChars name.toList := by
  simp only [constructors, List.mem_cons, List.not_mem_nil, or_false] at h
  rcases h with heq | heq | heq | heq
  all_goals
    cases heq
    exact symbolChars_of_word rfl (by decide) (by decide) (by decide)

/-- The names that printed values use. -/
def printedNames : List String := ["true", "false"] ++ constructors.map Prod.fst

/-- The names that printed values use denote, as seen from a scope, what they denote at the
start. -/
def Interpreter.KeepsNames (i : Interpreter) (scope : ScopeId) : Prop :=
  ∀ name ∈ printedNames,
    i.scopes.lookup scope name = Interpreter.initial.scopes.lookup globalScope name

/-- What is declared under the name of a constructor takes the literal of a printed call. -/
def Catalogue.AdmitsLiterals (c : Catalogue) : Prop :=
  ∀ name b t, (name, b, t) ∈ constructors → ∀ d, c.find? name = some d → d.Admits t

theorem Catalogue.admitsLiterals_standard : Catalogue.standard.AdmitsLiterals := by
  have hall : constructors.all (fun entry => (Catalogue.standard.find? entry.1).all fun d =>
      decide (d.Admits entry.2.2)) = true := by
    decide +kernel
  intro name b t hmem d hd
  have hentry := List.all_eq_true.1 hall (name, b, t) hmem
  rw [hd, Option.all_some] at hentry
  exact of_decide_eq_true hentry

namespace Interpreter.KeepsNames

variable {i : Interpreter} {scope : ScopeId}

theorem lookup_constructor (h : i.KeepsNames scope) {name : String} {b : Builtin} {t : TypeExpr}
    (hmem : (name, b, t) ∈ constructors) :
    i.scopes.lookup scope name = some (.native (.builtin b)) := by
  rw [h name (List.mem_append_right _ (List.mem_map_of_mem hmem))]
  simp only [constructors, List.mem_cons, List.not_mem_nil, or_false] at hmem
  rcases hmem with heq | heq | heq | heq
  all_goals
    cases heq
    rfl

theorem lookup_bool (h : i.KeepsNames scope) (value : Bool) :
    i.scopes.lookup scope (if value then "true" else "false") = some (.bool value) := by
  cases value with
  | true => exact h "true" (by decide)
  | false => exact h "false" (by decide)

end Interpreter.KeepsNames

/-! ## Printed values -/

namespace Session

variable {i : Interpreter} {scope : ScopeId} {name text : String} {b : Builtin} {t : TypeExpr}
  {atom argument value : Datum}

theorem evalText_atom (hspells : Spells text.toList atom) (hnil : atom ≠ .nil)
    (hlist : ∀ position items, atom ≠ .list position items)
    (hinfer : atom.infer i.catalogue = .ok t)
    (heval : (Session.eval atom scope).runFrom i = (.ok value, i)) (source : String) :
    ((Session.evalText source text scope).runFrom i).1 = .ok value := by
  have herase : atom.erase = atom := Datum.erase_of_ne_list hlist
  obtain ⟨found, hfound, hrun⟩ := evalText_of_spells hspells (by rwa [herase]) source
  obtain rfl := Datum.eq_of_erase_eq (hfound.trans herase) hlist
  rw [Session.evalText, hrun hinfer heval]

theorem evalText_literal (hspells : Spells text.toList argument)
    (hargument : argument.isLiteral = true) (source : String) :
    ((Session.evalText source text scope).runFrom i).1 = .ok argument := by
  obtain ⟨t, hinfer⟩ := Datum.infer_literal hargument i.catalogue
  refine evalText_atom hspells ?_ (Datum.ne_list_of_isLiteral hargument) hinfer
    (Evaluation.runFrom_literal 999999999999 hargument scope i) source
  rintro rfl
  cases hargument

theorem evalText_call (h : i.KeepsNames scope) (hdeclared : i.catalogue.AdmitsLiterals)
    (hmem : (name, b, t) ∈ constructors) (hargument : argument.isLiteral = true)
    (hinfer : argument.infer i.catalogue = .ok t) (hspells : Spells text.toList argument)
    (hcompute : b.compute? [argument] = some (.ok value)) (source : String) :
    ((Session.evalText source ("(" ++ name ++ " " ++ text ++ ")") scope).runFrom i).1 =
      .ok value := by
  have hname : Evaluation.keyword? name = none :=
    (by decide : ∀ entry ∈ constructors, Evaluation.keyword? entry.1 = none) (name, b, t) hmem
  obtain ⟨found, hfound, hrun⟩ :=
    evalText_of_spells (spells_call (symbolChars_constructor hmem) hspells) (by simp [Datum.erase])
      source
  obtain ⟨position, rfl⟩ := Datum.eq_call_of_erase_eq hfound hargument
  obtain ⟨s, hcheck⟩ := Datum.infer_call hname hinfer (hdeclared name b t hmem) position
  obtain ⟨j, heval⟩ := Evaluation.runFrom_call 999999999998 hname (h.lookup_constructor hmem)
    hargument hcompute position
  have hresult : (Session.evalText source ("(" ++ name ++ " " ++ text ++ ")") scope).runFrom i =
      (.ok value, j) := hrun hcheck heval
  rw [hresult]

/-- A number that is printed as a call with a quoted text. -/
theorem evalText_quoted (h : i.KeepsNames scope) (hdeclared : i.catalogue.AdmitsLiterals)
    (hmem : (name, b, .string) ∈ constructors)
    (hplain : text.toList.flatMap Datum.escapeChar = text.toList)
    (hcompute : b.compute? [.text text] = some (.ok value)) (source : String) :
    ((Session.evalText source ("(" ++ name ++ " \"" ++ text ++ "\")") scope).runFrom i).1 =
      .ok value := by
  have heq : "(" ++ name ++ " \"" ++ text ++ "\")" =
      "(" ++ name ++ " " ++ ("\"" ++ text ++ "\"") ++ ")" := by
    apply String.toList_inj.1
    simp
  rw [heq]
  exact evalText_call h hdeclared hmem rfl (Datum.infer.eq_2 _ text) (spells_quoted hplain) hcompute
    source

theorem compute_int32 (n : Int32) :
    Builtin.toInt32.compute? [.number (.int64 n.toInt64)] = some (.ok (.number (.int32 n))) := by
  have hconvert : (Number.int64 n.toInt64).convert .int32 = .ok (.int32 n) := by
    apply Number.convert_of_value?_eq (v := .int32 n) rfl
    rw [Number.value?, Number.value?, Int32.toInt_toInt64]
  change some (Builtin.ofNumber ((Number.int64 n.toInt64).convert .int32)) = _
  rw [hconvert]
  rfl

theorem evalText_float (h : i.KeepsNames scope) (hdeclared : i.catalogue.AdmitsLiterals)
    (source : String) (x : Binary64) :
    ((evalText source (Datum.writeFloat x) scope).runFrom i).1 = .ok (.number (.float64 x)) := by
  have hmem : ("float", Builtin.toFloat, TypeExpr.string) ∈ constructors := by simp [constructors]
  -- what is not finite is printed as a call
  have hcall (hplain : (x.format Binary64.towerLayout).toList.flatMap Datum.escapeChar =
        (x.format Binary64.towerLayout).toList)
      (hread : Number.readFloat (x.format Binary64.towerLayout) = .ok (.float64 x)) :=
    evalText_quoted h hdeclared hmem hplain (congrArg some (Builtin.construct_text hread)) source
  cases x with
  | finite negative m e canonical =>
    exact evalText_literal (spells_finite negative canonical) rfl source
  | nan => exact hcall rfl rfl
  | infinite negative =>
    cases negative with
    | true => exact hcall rfl rfl
    | false => exact hcall rfl rfl

theorem evalText_bigint (h : i.KeepsNames scope) (hdeclared : i.catalogue.AdmitsLiterals)
    (source : String) (n : ℤ) :
    ((evalText source (Datum.writeNumber (.bigint n)) scope).runFrom i).1 =
      .ok (.number (.bigint n)) := by
  have hmem : ("bigint", Builtin.toBigint, TypeExpr.string) ∈ constructors := by simp [constructors]
  have hplain : (Text.ofInteger n).toList.flatMap Datum.escapeChar = (Text.ofInteger n).toList :=
    flatMap_escapeChar fun c hc => (Text.mem_ofInteger hc).imp id .inr
  have hread : Number.readBigint (Text.ofInteger n) = .ok (.bigint n) := by
    rw [Number.readBigint, Text.readInteger_ofInteger]
  exact evalText_quoted h hdeclared hmem hplain (congrArg some (Builtin.construct_text hread))
    source

theorem evalText_decimal (h : i.KeepsNames scope) (hdeclared : i.catalogue.AdmitsLiterals)
    (source : String) (d : Decimal) :
    ((evalText source (Datum.writeNumber (.decimal d)) scope).runFrom i).1 =
      .ok (.number (.decimal d.withoutExponent)) := by
  have hmem : ("decimal", Builtin.toDecimal, TypeExpr.string) ∈ constructors := by
    simp [constructors]
  have hplain := flatMap_escapeChar fun c => Decimal.mem_fixed (d := d)
  have hread : Number.readDecimal d.fixed = .ok (.decimal d.withoutExponent) := by
    rw [Number.readDecimal, Decimal.read_fixed]
  exact evalText_quoted h hdeclared hmem hplain (congrArg some (Builtin.construct_text hread))
    source

theorem evalText_number (h : i.KeepsNames scope) (hdeclared : i.catalogue.AdmitsLiterals)
    (source : String) {n : Number}
    (hn : ∀ d, n ≠ .decimal d) :
    ((evalText source (Datum.writeNumber n) scope).runFrom i).1 = .ok (.number n) := by
  cases n with
  | int32 n =>
    have hmem : ("int32", Builtin.toInt32, TypeExpr.int) ∈ constructors := by simp [constructors]
    have hargument : Spells (Text.ofInteger n.toInt).toList (.number (.int64 n.toInt64)) := by
      rw [← Int32.toInt_toInt64]
      exact spells_int64 n.toInt64
    exact evalText_call h hdeclared hmem rfl (Datum.infer.eq_3 _ _) hargument (compute_int32 n)
      source
  | int64 n => exact evalText_literal (spells_int64 n) rfl source
  | float64 x => exact evalText_float h hdeclared source x
  | bigint n => exact evalText_bigint h hdeclared source n
  | decimal d => exact absurd rfl (hn d)

theorem evalText_bool (h : i.KeepsNames scope) (source : String) (value : Bool) :
    ((evalText source (if value then "true" else "false") scope).runFrom i).1 =
      .ok (.bool value) := by
  have hsymbol : SymbolChars (if value then "true" else "false").toList := by
    cases value with
    | true => exact symbolChars_of_word (c := 't') rfl (by decide) (by decide) (by decide)
    | false => exact symbolChars_of_word (c := 'f') rfl (by decide) (by decide) (by decide)
  have hspells := spells_symbol hsymbol
  rw [symbolAtom, String.ofList_toList] at hspells
  exact evalText_atom hspells (by simp) (by simp) (Datum.infer.eq_8 _ _)
    (Evaluation.runFrom_evalStep_bound (evaluator 999999999999) (h.lookup_bool value)) source

/-- Evaluating the printed text of a number, a text or a truth value gives the value back.  A
decimal with a positive exponent comes back as the equal decimal without one. -/
theorem evalText_serialize (h : i.KeepsNames scope) (hdeclared : i.catalogue.AdmitsLiterals)
    (source : String) :
    (∀ value, ((evalText source (i.serialize scope (.bool value)) scope).runFrom i).1 =
        .ok (.bool value)) ∧
      (∀ s, ((evalText source (i.serialize scope (.text s)) scope).runFrom i).1 = .ok (.text s)) ∧
      (∀ n, (∀ d, n ≠ Number.decimal d) →
        ((evalText source (i.serialize scope (.number n)) scope).runFrom i).1 = .ok (.number n)) ∧
      (∀ d : Decimal, d.exponent ≤ 0 →
        ((evalText source (i.serialize scope (.number (.decimal d))) scope).runFrom i).1 =
          .ok (.number (.decimal d))) ∧
      ∀ d : Decimal, 0 < d.exponent → ∃ whole : Decimal,
        ((evalText source (i.serialize scope (.number (.decimal d))) scope).runFrom i).1 =
          .ok (.number (.decimal whole)) ∧ whole.exponent = 0 ∧ whole.value = d.value := by
  simp only [Interpreter.serialize, Datum.serialize]
  refine ⟨evalText_bool h source, fun s => evalText_literal (spells_text s) rfl source,
    fun n => evalText_number h hdeclared source, fun d hd => ?_, fun d hd => ?_⟩
  · rw [evalText_decimal h hdeclared, Decimal.withoutExponent, if_pos hd]
  · refine ⟨d.withoutExponent, evalText_decimal h hdeclared source d, ?_, ?_⟩
    · rw [Decimal.withoutExponent, if_neg (by omega)]
      rfl
    · have hvalue := Decimal.coefficientAt_value hd.le
      rw [zpow_zero, mul_one] at hvalue
      rw [Decimal.withoutExponent, if_neg (by omega), Decimal.value_ofInteger, hvalue]

theorem evalText_serialize_initial :
    Interpreter.initial.KeepsNames globalScope ∧ Interpreter.initial.catalogue.AdmitsLiterals ∧
      ((evalText "" (Interpreter.initial.serialize globalScope (.text "\\\"\r\n\t"))
        globalScope).runFrom .initial).1 = .ok (.text "\\\"\r\n\t") ∧
      ((evalText "" (Interpreter.initial.serialize globalScope (.number (.int32 (-5))))
        globalScope).runFrom .initial).1 = .ok (.number (.int32 (-5))) := by
  have hnames : Interpreter.initial.KeepsNames globalScope := fun _ _ => rfl
  have hdeclared := Catalogue.admitsLiterals_standard
  obtain ⟨-, htext, hnumber, -⟩ := evalText_serialize hnames hdeclared ""
  exact ⟨hnames, hdeclared, htext _, hnumber _ (by simp)⟩

/-- A declaration without a function leaves all variables as they are, and still decides which calls
pass: once the name is declared to take two arguments, a printed integer of 32 bits is rejected. -/
theorem not_evalText_serialize :
    let d : Declaration := ⟨"int32", "", 2, 2, [], .int, none⟩
    let i := ((declare d).runFrom .initial).2
    i.KeepsNames globalScope ∧
      i.serialize globalScope (.number (.int32 5)) = "(int32 5)" ∧
      ((evalText "t" (i.serialize globalScope (.number (.int32 5))) globalScope).runFrom i).1 =
        .error (.raised (.rejected (.tooFew ⟨"t", 1, 1⟩ "int32" 2)) none) :=
  ⟨fun _ _ => rfl, rfl, rfl⟩

end Session

end Reckoner
