import Reckoner.Builtin.Run
import Reckoner.Proofs.Action
import Reckoner.Proofs.Number.Failure

/-!
# Which argument a builtin complains about

The builtins on many arguments go through them from left to right and carry a value on: the result
so far, or the argument just compared.  `goThrough` is this walk, with one `Passage` from the value
to the next argument.

A passage checks its two operands before it computes, and `complaint?` is what the check says.
After the first passage the value that is carried on is a number, so a complaint is about the
argument that is met, the leftmost one that is no number (`Heeds.goThrough_later`).  In the first
passage the order of the check shows: a relation with its sides exchanged looks at the second
argument first, and counts it as the first operand.
-/

namespace Reckoner.Builtin

/-- Whether a value is no number. -/
def isStranger (x : Datum) : Bool := x.number?.isNone

/-- The leftmost argument that is no number. -/
def stranger? (arguments : List Datum) : Option Datum := arguments.find? isStranger

/-- What an operation says about its operands. -/
def complaint? (operator : String) (a b : Datum) : Option NumberError :=
  if isStranger a then some (.operand operator 1 a.typeName)
  else if isStranger b then some (.operand operator 2 b.typeName)
  else none

/-! ## Going through the arguments -/

/-- The way from a value to the next argument: on with a value, or to the end. -/
abbrev Passage := Datum → Datum → Except NumberError (Option Datum)

/-- Go through arguments with a value. -/
def goThrough (passage : Passage) : Datum → List Datum → Except NumberError (Option Datum)
  | carried, [] => .ok (some carried)
  | carried, x :: rest => do
    match ← passage carried x with
    | some next => goThrough passage next rest
    | none => return none

/-- Carry a result on. -/
def computes (operation : Operand → Operand → Except NumberError Number) : Passage :=
  fun total x => (operation total.operand x.operand).map fun n => some (.number n)

/-- Carry an argument on as long as a relation holds. -/
def compares (relation : Operand → Operand → Except NumberError Bool) : Passage :=
  fun a b => (relation a.operand b.operand).map fun holds => if holds then some b else none

variable {passage : Passage} {carried next x : Datum} {rest : List Datum} {e : NumberError}

theorem goThrough_error (h : passage carried x = .error e) :
    goThrough passage carried (x :: rest) = .error e := by
  rw [goThrough, h]
  rfl

theorem goThrough_some (h : passage carried x = .ok (some next)) :
    goThrough passage carried (x :: rest) = goThrough passage next rest := by
  rw [goThrough, h]
  rfl

theorem goThrough_none (h : passage carried x = .ok none) :
    goThrough passage carried (x :: rest) = .ok none := by
  rw [goThrough, h]
  rfl

theorem goThrough_of_combine {operation : Operand → Operand → Except NumberError Number}
    {start : Datum} (h : combine operation (start :: rest) = .error (.number e)) :
    goThrough (computes operation) start rest = .error e := by
  induction rest generalizing start with
  | nil => cases h
  | cons x rest ih =>
    rw [combine, List.foldlM_cons] at h
    cases hresult : operation start.operand x.operand with
    | error e' =>
      rw [hresult] at h
      cases h
      exact goThrough_error (by rw [computes, hresult]; rfl)
    | ok n =>
      rw [hresult] at h
      rw [goThrough_some (by rw [computes, hresult]; rfl)]
      exact ih h

theorem goThrough_of_related {relation : Operand → Operand → Except NumberError Bool}
    {start : Datum} (h : related relation (start :: rest) = .error e) :
    goThrough (compares relation) start rest = .error e := by
  induction rest generalizing start with
  | nil => cases h
  | cons x rest ih =>
    rw [related] at h
    cases hresult : relation start.operand x.operand with
    | error e' =>
      rw [hresult] at h
      cases h
      exact goThrough_error (by rw [compares, hresult]; rfl)
    | ok holds =>
      rw [hresult] at h
      cases holds with
      | false => cases h
      | true =>
        rw [goThrough_some (by rw [compares, hresult]; rfl)]
        exact ih h

/-! ## Passages that check their operands -/

theorem complaint?_eq_none_iff {operator : String} {a b : Datum} :
    complaint? operator a b = none ↔ isStranger a = false ∧ isStranger b = false := by
  unfold complaint?
  split_ifs with ha hb
  · simp [ha]
  · simp [hb]
  · simp [ha, hb]

/-- A passage fails with a complaint if one of its operands is no number, complains about nothing
else, and carries numbers on. -/
structure Heeds (complaint? : Datum → Datum → Option NumberError) (passage : Passage) : Prop where
  strangers {a b : Datum} : complaint? a b = none ↔ isStranger a = false ∧ isStranger b = false
  complains {a b : Datum} {e : NumberError} : complaint? a b = some e → passage a b = .error e
  silent {a b : Datum} {operator : String} {position : Int} {actual : String} :
    complaint? a b = none → passage a b ≠ .error (.operand operator position actual)
  number {a b next : Datum} : passage a b = .ok (some next) → isStranger next = false

section

variable {operator : String} {a b : Datum} {α : Type}

theorem binary_of_complaint {f : Number → Number → Except NumberError α}
    (h : complaint? operator a b = some e) :
    Operand.binary operator a.operand b.operand f = .error e := by
  unfold complaint? isStranger at h
  unfold Datum.operand
  cases ha : a.number? with
  | none =>
    rw [ha] at h
    cases h
    rfl
  | some m =>
    cases hb : b.number? with
    | none =>
      rw [ha, hb] at h
      cases h
      rfl
    | some n =>
      rw [ha, hb] at h
      cases h

theorem binary_of_silent (f : Number → Number → Except NumberError α)
    (h : complaint? operator a b = none) :
    ∃ m n, Operand.binary operator a.operand b.operand f = f m n := by
  obtain ⟨ha, hb⟩ := complaint?_eq_none_iff.1 h
  unfold isStranger at ha hb
  obtain ⟨m, hm⟩ := Option.isSome_iff_exists.1 (Option.isNone_eq_false_iff.1 ha)
  obtain ⟨n, hn⟩ := Option.isSome_iff_exists.1 (Option.isNone_eq_false_iff.1 hb)
  refine ⟨m, n, ?_⟩
  rw [Datum.operand, hm, Datum.operand, hn]
  rfl

/-- An operation on two numbers complains about its left operand first. -/
theorem heeds_binary {f : Number → Number → Except NumberError α}
    (carry : Datum → Datum → α → Option Datum)
    (hf : ∀ m n symbol position actual, f m n ≠ .error (.operand symbol position actual))
    (hcarry : ∀ a b v next, isStranger a = false → isStranger b = false →
      carry a b v = some next → isStranger next = false) :
    Heeds (complaint? operator) fun a b =>
      (Operand.binary operator a.operand b.operand f).map (carry a b) where
  strangers := complaint?_eq_none_iff
  complains h := by
    rw [binary_of_complaint h]
    rfl
  silent {a b symbol position actual} h := by
    obtain ⟨m, n, hbinary⟩ := binary_of_silent f h
    rw [hbinary]
    cases hresult : f m n with
    | error e =>
      rintro ⟨⟩
      exact hf m n _ _ _ hresult
    | ok v => nofun
  number {a b next} h := by
    cases hcomplaint : complaint? operator a b with
    | some e =>
      rw [binary_of_complaint hcomplaint] at h
      cases h
    | none =>
      obtain ⟨ha, hb⟩ := complaint?_eq_none_iff.1 hcomplaint
      obtain ⟨m, n, hbinary⟩ := binary_of_silent f hcomplaint
      rw [hbinary] at h
      cases hresult : f m n with
      | error e =>
        rw [hresult] at h
        cases h
      | ok v =>
        rw [hresult] at h
        exact hcarry a b v next ha hb (Except.ok.inj h)

end

theorem Heeds.exchange {complaint? : Datum → Datum → Option NumberError}
    (h : Heeds complaint? passage) :
    Heeds (fun a b => complaint? b a) fun a b => passage b a where
  strangers := h.strangers.trans and_comm
  complains := h.complains
  silent := h.silent
  number := h.number

theorem heeds_computes {operator : String} {f : Number → Number → Except NumberError Number}
    (hf : ∀ m n symbol position actual, f m n ≠ .error (.operand symbol position actual)) :
    Heeds (complaint? operator) (computes fun a b => Operand.binary operator a b f) := by
  refine heeds_binary (fun _ _ n => some (.number n)) hf ?_
  rintro _ _ n _ _ _ ⟨⟩
  rfl

theorem heeds_compares (operator : String) (holds : Number → Number → Bool) :
    Heeds (complaint? operator)
      (compares fun a b => Operand.binary operator a b fun m n => .ok (holds m n)) := by
  refine heeds_binary (fun _ b (answer : Bool) => if answer then some b else none)
    (fun _ _ _ _ _ h => nomatch h) ?_
  intro a b answer next _ hb hnext
  obtain ⟨_, ⟨⟩⟩ := Option.ite_none_right_eq_some.1 hnext
  exact hb

theorem heeds_compares_flipped (operator : String) (holds : Number → Number → Bool) :
    Heeds (fun a b => complaint? operator b a)
      (compares (flipped fun a b => Operand.binary operator a b fun m n => .ok (holds m n))) := by
  have hexchanged : Heeds (complaint? operator) fun a b =>
      (Operand.binary operator a.operand b.operand fun m n => .ok (holds m n)).map
        fun answer : Bool => if answer then some a else none := by
    refine heeds_binary (fun a _ (answer : Bool) => if answer then some a else none)
      (fun _ _ _ _ _ h => nomatch h) ?_
    intro a b answer next ha _ hnext
    obtain ⟨_, ⟨⟩⟩ := Option.ite_none_right_eq_some.1 hnext
    exact ha
  exact hexchanged.exchange

/-! ## The complaint of a whole walk -/

section

variable {complaint? : Datum → Datum → Option NumberError} {operator : String} {position : Int}
  {actual : String}

/-- The complaint is about the next argument, or comes after it and then all was well so far. -/
theorem Heeds.goThrough_cons (h : Heeds complaint? passage)
    (herror : goThrough passage carried (x :: rest) = .error (.operand operator position actual)) :
    complaint? carried x = some (.operand operator position actual) ∨
      isStranger carried = false ∧ isStranger x = false ∧ ∃ next, isStranger next = false ∧
        goThrough passage next rest = .error (.operand operator position actual) := by
  cases hcomplaint : complaint? carried x with
  | some e =>
    rw [goThrough_error (h.complains hcomplaint)] at herror
    cases herror
    exact .inl rfl
  | none =>
    obtain ⟨hcarried, hx⟩ := h.strangers.1 hcomplaint
    refine .inr ⟨hcarried, hx, ?_⟩
    cases hpassage : passage carried x with
    | error e =>
      rw [goThrough_error hpassage] at herror
      cases herror
      exact absurd hpassage (h.silent hcomplaint)
    | ok onward =>
      cases onward with
      | none =>
        rw [goThrough_none hpassage] at herror
        cases herror
      | some next =>
        rw [goThrough_some hpassage] at herror
        exact ⟨next, h.number hpassage, herror⟩

/-- With a number to carry on, the complaint is about the leftmost argument that is no number. -/
theorem Heeds.goThrough_later (h : Heeds complaint? passage) (hcarried : isStranger carried = false)
    (herror : goThrough passage carried rest = .error (.operand operator position actual)) :
    ∃ value x, isStranger value = false ∧ isStranger x = true ∧ stranger? rest = some x ∧
      complaint? value x = some (.operand operator position actual) := by
  induction rest generalizing carried with
  | nil => cases herror
  | cons x rest ih =>
    obtain hcomplaint | ⟨_, hx, next, hnext, hlater⟩ := h.goThrough_cons herror
    · have hx : isStranger x = true := by
        by_contra hx
        rw [h.strangers.2 ⟨hcarried, Bool.not_eq_true _ ▸ hx⟩] at hcomplaint
        cases hcomplaint
      exact ⟨carried, x, hcarried, hx, List.find?_cons_of_pos hx, hcomplaint⟩
    · obtain ⟨value, y, hvalue, hy, hfind, hcomplaint⟩ := ih hnext hlater
      refine ⟨value, y, hvalue, hy, ?_, hcomplaint⟩
      rw [stranger?, List.find?_cons_of_neg (by simp [hx])]
      exact hfind

variable {symbol : String} {first second : Datum}

theorem stranger?_of_numbers (hfirst : isStranger first = false)
    (hsecond : isStranger second = false) :
    stranger? (first :: second :: rest) = stranger? rest := by
  rw [stranger?, List.find?_cons_of_neg (by simp [hfirst]),
    List.find?_cons_of_neg (by simp [hsecond])]
  rfl

/-- Operands that are checked in order: the complaint is about the leftmost argument that is no
number, and only the first argument is a first operand. -/
theorem Heeds.names_leftmost (h : Heeds (Builtin.complaint? symbol) passage)
    (herror : goThrough passage first (second :: rest) =
      .error (.operand operator position actual)) :
    ∃ x, stranger? (first :: second :: rest) = some x ∧ actual = x.typeName ∧
      position = if isStranger first then 1 else 2 := by
  obtain hcomplaint | ⟨hfirst, hsecond, next, hnext, hlater⟩ := h.goThrough_cons herror
  · unfold Builtin.complaint? at hcomplaint
    split_ifs at hcomplaint with hfirst hsecond
    · cases hcomplaint
      exact ⟨first, List.find?_cons_of_pos hfirst, rfl, by simp [hfirst]⟩
    · cases hcomplaint
      refine ⟨second, ?_, rfl, by simp [hfirst]⟩
      rw [stranger?, List.find?_cons_of_neg hfirst, List.find?_cons_of_pos hsecond]
  · obtain ⟨value, x, hvalue, hx, hfind, hcomplaint⟩ := h.goThrough_later hnext hlater
    rw [Builtin.complaint?, if_neg (by simp [hvalue]), if_pos hx] at hcomplaint
    cases hcomplaint
    exact ⟨x, (stranger?_of_numbers hfirst hsecond).trans hfind, rfl, by simp [hfirst]⟩

/-- Operands that are checked the other way round: the second argument comes before the first, and
every argument but the first is a first operand. -/
theorem Heeds.names_exchanged (h : Heeds (fun a b => Builtin.complaint? symbol b a) passage)
    (herror : goThrough passage first (second :: rest) =
      .error (.operand operator position actual)) :
    ∃ x, stranger? (second :: first :: rest) = some x ∧ actual = x.typeName ∧
      position = if isStranger first && !isStranger second then 2 else 1 := by
  obtain hcomplaint | ⟨hfirst, hsecond, next, hnext, hlater⟩ := h.goThrough_cons herror
  · unfold Builtin.complaint? at hcomplaint
    split_ifs at hcomplaint with hsecond hfirst
    · cases hcomplaint
      exact ⟨second, List.find?_cons_of_pos hsecond, rfl, by simp [hsecond]⟩
    · cases hcomplaint
      refine ⟨first, ?_, rfl, by simp [hfirst, hsecond]⟩
      rw [stranger?, List.find?_cons_of_neg hsecond, List.find?_cons_of_pos hfirst]
  · obtain ⟨value, x, hvalue, hx, hfind, hcomplaint⟩ := h.goThrough_later hnext hlater
    rw [Builtin.complaint?, if_pos hx] at hcomplaint
    cases hcomplaint
    exact ⟨x, (stranger?_of_numbers hsecond hfirst).trans hfind, rfl, by simp [hfirst]⟩

end

/-! ## Calls -/

/-- The builtins on many arguments that check their operands in order. -/
def inOrder : List Builtin := [.add, .subtract, .multiply, .divide, .equal, .less, .lessEqual]

/-- The builtins on many arguments that exchange their operands first. -/
def exchanged : List Builtin := [.greater, .greaterEqual]

theorem eq_error_of_run {b : Builtin} {arguments : List Datum} {i : Interpreter} {fault : Fault}
    {result : Except Fault Datum}
    (h : ((b.run arguments).runFrom i).1 = .error (.raised fault none))
    (hresult : compute? b arguments = some result) : result = .error fault := by
  unfold run at h
  rw [hresult] at h
  cases result with
  | ok value => cases h
  | error found =>
    cases h
    rfl

theorem eq_error_of_ofBool {result : Except NumberError Bool}
    (h : ofBool result = .error (.number e)) : result = .error e := by
  cases result with
  | ok answer => cases h
  | error found =>
    cases h
    rfl

/-- The complaint of a call with two or more arguments about one that is no number.  It names the
type of the leftmost such argument, and counts it as the first operand if it is the first argument
and as the second one otherwise.  Only the descending comparisons differ: they look at the second
argument before the first, and count every argument but the first as the first operand. -/
theorem operand_error_named {b : Builtin} {first second : Datum} {rest : List Datum}
    {i : Interpreter} {operator : String} {position : Int} {actual : String}
    (h : ((b.run (first :: second :: rest)).runFrom i).1 =
      .error (.raised (.number (.operand operator position actual)) none)) :
    (b ∈ inOrder → ∃ x, stranger? (first :: second :: rest) = some x ∧ actual = x.typeName ∧
      position = if isStranger first then 1 else 2) ∧
    (b ∈ exchanged → ∃ x, stranger? (second :: first :: rest) = some x ∧ actual = x.typeName ∧
      position = if isStranger first && !isStranger second then 2 else 1) := by
  constructor
  · intro hb
    simp only [inOrder, List.mem_cons, List.not_mem_nil, or_false] at hb
    rcases hb with rfl | rfl | rfl | rfl | rfl | rfl | rfl
    · exact (heeds_computes fun m n => (RingOperation.add.settles m n).not_operand).names_leftmost
        (goThrough_of_combine (eq_error_of_run h rfl))
    · exact (heeds_computes fun m n => (RingOperation.sub.settles m n).not_operand).names_leftmost
        (goThrough_of_combine (eq_error_of_run h rfl))
    · exact (heeds_computes fun m n => (RingOperation.mul.settles m n).not_operand).names_leftmost
        (goThrough_of_combine (eq_error_of_run h rfl))
    · exact (heeds_computes fun m n => (Number.settles_div m n).not_operand).names_leftmost
        (goThrough_of_combine (eq_error_of_run h rfl))
    · exact (heeds_compares "=" Number.equal).names_leftmost
        (goThrough_of_related (eq_error_of_ofBool (eq_error_of_run h rfl)))
    · exact (heeds_compares "<" Number.less).names_leftmost
        (goThrough_of_related (eq_error_of_ofBool (eq_error_of_run h rfl)))
    · exact (heeds_compares "<" Number.lessEqual).names_leftmost
        (goThrough_of_related (eq_error_of_ofBool (eq_error_of_run h rfl)))
  · intro hb
    simp only [exchanged, List.mem_cons, List.not_mem_nil, or_false] at hb
    rcases hb with rfl | rfl
    · exact (heeds_compares_flipped "<" Number.less).names_exchanged
        (goThrough_of_related (eq_error_of_ofBool (eq_error_of_run h rfl)))
    · exact (heeds_compares_flipped "<" Number.lessEqual).names_exchanged
        (goThrough_of_related (eq_error_of_ofBool (eq_error_of_run h rfl)))

/-- A text after two numbers, and a text and nil that are compared the other way round. -/
theorem operand_error_named_text :
    (((Builtin.less.run [.number (.int64 1), .number (.int64 2), .text "a", .nil]).runFrom
        .initial).1 = .error (.raised (.number (.operand "<" 2 "string")) none) ∧
      ∃ x, stranger? [.number (.int64 1), .number (.int64 2), .text "a", .nil] = some x ∧
        "string" = x.typeName ∧
        (2 : Int) = if isStranger (.number (.int64 1)) then 1 else 2) ∧
    ((Builtin.greater.run [.text "a", .nil]).runFrom .initial).1 =
        .error (.raised (.number (.operand "<" 1 "nil")) none) ∧
      ∃ x, stranger? [.nil, .text "a"] = some x ∧ "nil" = x.typeName ∧
        (1 : Int) = if isStranger (.text "a") && !isStranger .nil then 2 else 1 := by
  refine ⟨⟨rfl, ?_⟩, rfl, ?_⟩
  · exact (operand_error_named (b := .less) (i := .initial) rfl).1 (by decide)
  · exact (operand_error_named (b := .greater) (i := .initial) rfl).2 (by decide)

/-- A descending comparison of a number with a text counts the text as the first operand. -/
theorem not_operand_error_named :
    ¬∀ b ∈ inOrder ++ exchanged, ∀ (first second : Datum) (rest : List Datum) (i : Interpreter)
      (operator : String) (position : Int) (actual : String),
      ((b.run (first :: second :: rest)).runFrom i).1 =
        .error (.raised (.number (.operand operator position actual)) none) →
      ∃ x, stranger? (first :: second :: rest) = some x ∧ actual = x.typeName ∧
        position = if isStranger first then 1 else 2 := by
  intro hnamed
  obtain ⟨_, _, _, hposition⟩ := hnamed .greater (by decide) (.number (.int64 1)) (.text "a") []
    .initial "<" 1 "string" rfl
  cases hposition

end Reckoner.Builtin
