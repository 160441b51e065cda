import Reckoner.Proofs.Token.Scanning
import Reckoner.Reader

/-!
# Reading data from tokens

* `Datum.Readable` describes what can be read: lexemes, and lists of what can be read.
  `readable_of_readFrom` proves it of every expression by following the stack of the reader through
  the tokens.
* `ReadsAs` says that some tokens are one item, whatever is open around them and whatever comes
  after.  Atoms and lists of items read as themselves up to positions.
* `Program.readFrom_eq_cons` relates reading one expression to reading all of them, and
  `Program.forall_expressions_at` proves of all of them what the reader passes on.
-/

namespace Reckoner

open Token (Lexeme Lexemes symbolAtom)

/-- The data that a text can hold. -/
inductive Datum.Readable : Datum → Prop where
  | atom {datum : Datum} (h : Lexeme datum) : Readable datum
  | list (position : Option Position) {items : List Datum} (h : ∀ item ∈ items, Readable item) :
      Readable (.list position items)

theorem Token.Lexeme.erase_eq {datum : Datum} (h : Lexeme datum) : datum.erase = datum := by
  cases h with
  | symbol _ => rw [symbolAtom, Datum.erase]; simp
  | text _ => rw [Datum.erase]; simp
  | number _ => rw [Datum.erase]; simp

theorem Datum.Readable.erase {datum : Datum} (h : datum.Readable) : datum.erase.Readable := by
  induction h with
  | atom h =>
    rw [h.erase_eq]
    exact .atom h
  | list position _ ih =>
    rw [Datum.erase, Datum.eraseAll_eq_map]
    apply Readable.list
    intro item hitem
    obtain ⟨inner, hinner, rfl⟩ := List.mem_map.1 hitem
    exact ih inner hinner

/-- A name of plain characters is a symbol. -/
theorem symbolChars_of_word {chars : List Char} {c : Char} {cs : List Char}
    (hchars : chars = c :: cs) (hc : Token.startsWord c = true) (hslash : c ≠ '/')
    (hcs : cs.all (!Token.endsSymbol ·) = true) : Token.SymbolChars chars := by
  have hword (ds : List Char) (hds : ∀ d ∈ ds, Token.endsSymbol d = false) :
      Token.WordChars (ds ++ [c]) := by
    induction ds with
    | nil => exact .start hc
    | cons d ds ih =>
      have hrest := ih fun x hx => hds x (List.mem_cons_of_mem d hx)
      refine .more hrest (hds d List.mem_cons_self) ?_
      rintro ⟨_, hslash'⟩
      cases ds with
      | nil => exact hslash (List.cons.inj hslash').1
      | cons d ds => simp at hslash'
  refine .inl ?_
  rw [hchars, List.reverse_cons]
  refine hword cs.reverse fun d hd => ?_
  rw [← Bool.not_eq_true']
  exact List.all_eq_true.1 hcs d (List.mem_reverse.1 hd)

namespace Reader

variable {frames : List Frame} {tokens rest : List Token} {datum : Datum}

theorem symbolChars_quote : Token.SymbolChars "quote".toList :=
  symbolChars_of_word (c := 'q') rfl (by decide) (by decide) (by decide)

theorem lexeme_quote : Lexeme (.symbol "quote") := .symbol symbolChars_quote

theorem readable_quote (h : datum.Readable) : (quote datum).Readable := by
  apply Datum.Readable.list
  intro item hitem
  rcases List.mem_cons.1 hitem with rfl | hitem
  · exact .atom lexeme_quote
  · rcases List.mem_cons.1 hitem with rfl | hitem
    · exact h.erase
    · exact absurd hitem List.not_mem_nil

/-! ## What is open -/

/-- The items of the lists that are open have a property. -/
def ItemsHave (P : Datum → Prop) (frames : List Frame) : Prop :=
  ∀ position items, Frame.opened position items ∈ frames → ∀ item ∈ items, P item

/-- Some list is open. -/
def SomeOpen (frames : List Frame) : Prop := ∃ position items, Frame.opened position items ∈ frames

variable {P : Datum → Prop}

theorem itemsHave_nil : ItemsHave P [] := fun _ _ hmem => absurd hmem List.not_mem_nil

theorem ItemsHave.of_cons {frame : Frame} (h : ItemsHave P (frame :: frames)) :
    ItemsHave P frames :=
  fun position items hmem => h position items (List.mem_cons_of_mem _ hmem)

theorem ItemsHave.opened (h : ItemsHave P frames) (position : Position) {items : List Datum}
    (hitems : ∀ item ∈ items, P item) : ItemsHave P (.opened position items :: frames) := by
  intro p found hmem
  rcases List.mem_cons.1 hmem with heq | hmem
  · cases heq
    exact hitems
  · exact h p found hmem

theorem ItemsHave.quoted (h : ItemsHave P frames) : ItemsHave P (.quoted :: frames) := by
  intro p found hmem
  rcases List.mem_cons.1 hmem with heq | hmem
  · cases heq
  · exact h p found hmem

/-- A complete item is the whole expression or goes into an open list. -/
theorem complete_cases (hframes : ItemsHave P frames) (hdatum : P datum)
    (hquote : ∀ datum, P datum → P (quote datum)) :
    (∃ whole, complete frames datum = .expression whole ∧ P whole) ∨
      ∃ next, complete frames datum = .more next ∧ ItemsHave P next ∧ SomeOpen next := by
  induction frames generalizing datum with
  | nil => exact .inl ⟨datum, rfl, hdatum⟩
  | cons frame frames ih =>
    cases frame with
    | quoted => exact ih hframes.of_cons (hquote datum hdatum)
    | opened position items =>
      refine .inr ⟨_, rfl, hframes.of_cons.opened position ?_, position, datum :: items,
        List.mem_cons_self⟩
      intro item hitem
      rcases List.mem_cons.1 hitem with rfl | hitem
      · exact hdatum
      · exact hframes position items List.mem_cons_self item hitem

theorem innermostOpen_of_someOpen (h : SomeOpen frames) :
    ∃ position, innermostOpen frames = some position := by
  obtain ⟨position, items, hmem⟩ := h
  induction frames with
  | nil => exact absurd hmem List.not_mem_nil
  | cons frame frames ih =>
    cases frame with
    | opened p _ => exact ⟨p, rfl⟩
    | quoted =>
      rcases List.mem_cons.1 hmem with heq | hmem
      · cases heq
      · exact ih hmem

/-! ## What is read is readable -/

/-- Go on with the tokens after an item. -/
def resume (step : ReadStep) (rest : List Token) : Except ReadError (Datum × List Token) :=
  match step with
  | .expression datum => .ok (datum, rest)
  | .more frames => readFrom frames rest
  | .failed error => .error error

theorem readFrom_cons (frames : List Frame) (token : Token) (rest : List Token) :
    readFrom frames (token :: rest) = resume (step frames token) rest := by
  rw [readFrom]
  cases step frames token <;> rfl

theorem step_closing (frames : List Frame) :
    step frames .closing = .failed .unexpectedClose ∨
      ∃ position items outer, frames = .opened position items :: outer ∧
        step frames .closing = complete outer (.list (some position) items.reverse) := by
  cases frames with
  | nil => exact .inl rfl
  | cons frame outer =>
    cases frame with
    | quoted => exact .inl rfl
    | opened position items => exact .inr ⟨position, items, outer, rfl, rfl⟩

/-- Whatever is read is readable, unless there is nothing but quote marks. -/
theorem readable_of_readFrom (hframes : ItemsHave Datum.Readable frames)
    (htokens : Lexemes tokens)
    (hmore : SomeOpen frames ∨ ∃ token ∈ tokens, token ≠ Token.quoteMark)
    (h : readFrom frames tokens = .ok (datum, rest)) : datum.Readable := by
  -- the induction is on the tokens; a list that is open, or a token still to come, is what keeps
  -- the end of the text from quoting nil
  induction tokens generalizing frames with
  | nil =>
    rcases hmore with hopen | ⟨_, hmem, _⟩
    · obtain ⟨position, hposition⟩ := innermostOpen_of_someOpen hopen
      rw [readFrom, atEnd, hposition] at h
      cases h
    · exact absurd hmem List.not_mem_nil
  | cons token tokens ih =>
    have hlexemes : Lexemes tokens := fun datum hmem => htokens datum (List.mem_cons_of_mem _ hmem)
    have hcomplete {outer : List Frame} {item : Datum} (houter : ItemsHave Datum.Readable outer)
        (hitem : item.Readable) (hread : resume (complete outer item) tokens = .ok (datum, rest)) :
        datum.Readable := by
      rcases complete_cases houter hitem (fun _ => readable_quote) with
        ⟨whole, heq, hwhole⟩ | ⟨next, heq, hnext, hopen⟩
      · rw [heq] at hread
        cases hread
        exact hwhole
      · rw [heq] at hread
        exact ih hnext hlexemes (.inl hopen) hread
    rw [readFrom_cons] at h
    cases token with
    | opening position =>
      refine ih (hframes.opened position ?_) hlexemes
        (.inl ⟨position, [], List.mem_cons_self⟩) h
      exact fun _ hmem => absurd hmem List.not_mem_nil
    | quoteMark =>
      refine ih hframes.quoted hlexemes ?_ h
      rcases hmore with ⟨position, items, hmem⟩ | ⟨other, hmem, hother⟩
      · exact .inl ⟨position, items, List.mem_cons_of_mem _ hmem⟩
      · rcases List.mem_cons.1 hmem with heq | hmem
        · exact absurd heq hother
        · exact .inr ⟨other, hmem, hother⟩
    | atom item => exact hcomplete hframes (.atom (htokens item List.mem_cons_self)) h
    | closing =>
      rcases step_closing frames with hfailed | ⟨position, items, outer, rfl, hstep⟩
      · rw [hfailed] at h
        cases h
      · rw [hstep] at h
        refine hcomplete hframes.of_cons (.list _ ?_) h
        intro item hitem
        exact hframes position items List.mem_cons_self item (List.mem_reverse.1 hitem)

/-! ## Tokens that are one item -/

/-- Some tokens are one item, up to positions. -/
def ReadsAs (tokens : List Token) (datum : Datum) : Prop :=
  ∀ frames rest, ∃ found : Datum, found.erase = datum.erase ∧
    readFrom frames (tokens ++ rest) = resume (complete frames found) rest

/-- Some tokens are items one after another, up to positions. -/
def ReadsItems (tokens : List Token) (items : List Datum) : Prop :=
  ∀ position before frames rest, ∃ found : List Datum,
    found.map Datum.erase = items.map Datum.erase ∧
    readFrom (.opened position before :: frames) (tokens ++ rest) =
      readFrom (.opened position (found.reverse ++ before) :: frames) rest

theorem readsAs_atom (datum : Datum) : ReadsAs [.atom datum] datum :=
  fun frames rest => ⟨datum, rfl, readFrom_cons frames _ rest⟩

theorem readsItems_nil : ReadsItems [] [] := fun _ _ _ _ => ⟨[], rfl, rfl⟩

theorem ReadsAs.cons_items {items : List Datum} {others : List Token} (h : ReadsAs tokens datum)
    (hitems : ReadsItems others items) : ReadsItems (tokens ++ others) (datum :: items) := by
  intro position before frames rest
  obtain ⟨first, hfirst, hread⟩ := h (.opened position before :: frames) (others ++ rest)
  obtain ⟨found, hfound, hothers⟩ := hitems position (first :: before) frames rest
  refine ⟨first :: found, ?_, ?_⟩
  · rw [List.map_cons, List.map_cons, hfirst, hfound]
  · rw [List.append_assoc, hread, List.reverse_cons, List.append_assoc]
    exact hothers

theorem ReadsItems.list {items : List Datum} (h : ReadsItems tokens items) (position : Position)
    (other : Option Position) :
    ReadsAs (.opening position :: (tokens ++ [.closing])) (.list other items) := by
  intro frames rest
  obtain ⟨found, hfound, hread⟩ := h position [] frames (.closing :: rest)
  refine ⟨.list (some position) found, ?_, ?_⟩
  · simp only [Datum.erase, Datum.eraseAll_eq_map, hfound]
  · rw [List.cons_append, List.append_assoc, readFrom_cons]
    refine hread.trans ?_
    rw [List.append_nil, readFrom_cons, step, List.reverse_reverse]

theorem ReadsAs.readFrom (h : ReadsAs tokens datum) :
    ∃ found : Datum, found.erase = datum.erase ∧ Reader.readFrom [] tokens = .ok (found, []) := by
  obtain ⟨found, herase, hread⟩ := h [] []
  rw [List.append_nil] at hread
  exact ⟨found, herase, hread⟩

/-! ## One expression and all of them -/

/-- An item leaves something open only if a list was open. -/
theorem complete_more {next : List Frame} (h : complete frames datum = .more next) :
    next ≠ [] ∧ innermostOpen frames ≠ none := by
  induction frames generalizing datum with
  | nil => cases h
  | cons frame frames ih =>
    cases frame with
    | quoted => exact ih h
    | opened position items =>
      cases h
      exact ⟨List.cons_ne_nil _ _, Option.some_ne_none _⟩

/-- At the end of the text nothing more can be opened. -/
theorem atEnd_ne_more (frames next : List Frame) : atEnd frames ≠ .more next := by
  intro hend
  rw [atEnd] at hend
  split at hend
  · cases hend
  · exact absurd ‹_› (complete_more hend).2

theorem step_more {token : Token} {next : List Frame} (h : step frames token = .more next) :
    next ≠ [] := by
  cases token with
  | opening position =>
    cases h
    exact List.cons_ne_nil _ _
  | quoteMark =>
    cases h
    exact List.cons_ne_nil _ _
  | atom datum => exact (complete_more h).1
  | closing =>
    rcases step_closing frames with hfailed | ⟨position, items, outer, rfl, hstep⟩
    · rw [hfailed] at h
      cases h
    · exact (complete_more h).1

end Reader

theorem Datum.read_eq_ok_iff {source text : String} {datum : Datum} :
    Datum.read source text = .ok datum ↔ ∃ tokens rest, Token.scan source text = .ok tokens ∧
      Reader.readFrom [] tokens = .ok (datum, rest) := by
  unfold Datum.read
  constructor
  · intro h
    cases hscan : Token.scan source text with
    | error error =>
      rw [hscan] at h
      cases h
    | ok tokens =>
      rw [hscan] at h
      change (Reader.readFrom [] tokens >>= fun result => pure result.1) = _ at h
      cases hread : Reader.readFrom [] tokens with
      | error error =>
        rw [hread] at h
        cases h
      | ok result =>
        rw [hread] at h
        cases h
        exact ⟨tokens, result.2, rfl, hread⟩
  · rintro ⟨tokens, rest, hscan, hread⟩
    rw [hscan]
    change (Reader.readFrom [] tokens >>= fun result => pure result.1) = _
    rw [hread]
    rfl

/-- Reading all expressions starts with reading the first one. -/
theorem Program.readFrom_eq_cons {frames : List Frame} {tokens rest : List Token} {datum : Datum}
    (hsome : frames ≠ [] ∨ tokens ≠ [])
    (h : Reader.readFrom frames tokens = .ok (datum, rest)) :
    readFrom frames tokens = (readFrom [] rest).cons datum := by
  induction tokens generalizing frames with
  | nil =>
    have hframes : frames ≠ [] := hsome.resolve_right fun hne => hne rfl
    obtain ⟨frame, outer, rfl⟩ := List.exists_cons_of_ne_nil hframes
    rw [Reader.readFrom] at h
    rw [readFrom]
    · cases hend : Reader.atEnd (frame :: outer) with
      | expression found =>
        simp only [hend] at h
        cases h
        rfl
      | more next => exact absurd hend (Reader.atEnd_ne_more _ next)
      | failed error =>
        simp only [hend] at h
        cases h
    · simp
  | cons token tokens ih =>
    rw [Reader.readFrom_cons] at h
    rw [readFrom]
    cases hstep : Reader.step frames token with
    | expression found =>
      rw [hstep] at h
      cases h
      rfl
    | more next =>
      rw [hstep] at h
      exact ih (.inl (Reader.step_more hstep)) h
    | failed error =>
      rw [hstep] at h
      cases h

/-! ## All expressions of a text -/

/-- The lists that are open stand at admitted positions. -/
def Reader.OpenAt (admits : Position → Prop) (frames : List Frame) : Prop :=
  ∀ position items, Frame.opened position items ∈ frames → admits position

theorem Reader.OpenAt.opened {admits : Position → Prop} {frames : List Frame}
    (h : OpenAt admits frames) {position : Position} (hposition : admits position)
    (items : List Datum) : OpenAt admits (.opened position items :: frames) := by
  intro other found hmem
  rcases List.mem_cons.1 hmem with heq | hmem
  · cases heq
    exact hposition
  · exact h other found hmem

theorem Reader.OpenAt.of_cons {admits : Position → Prop} {frame : Frame} {frames : List Frame}
    (h : OpenAt admits (frame :: frames)) : OpenAt admits frames :=
  fun position items hmem => h position items (List.mem_cons_of_mem _ hmem)

theorem Reader.OpenAt.quoted {admits : Position → Prop} {frames : List Frame}
    (h : OpenAt admits frames) : OpenAt admits (.quoted :: frames) := by
  intro position items hmem
  rcases List.mem_cons.1 hmem with heq | hmem
  · cases heq
  · exact h position items hmem

/-- An item goes into a list that was open before. -/
theorem Reader.OpenAt.complete {admits : Position → Prop} {frames next : List Frame}
    {datum : Datum} (h : OpenAt admits frames) (hnext : Reader.complete frames datum = .more next) :
    OpenAt admits next := by
  induction frames generalizing datum with
  | nil => cases hnext
  | cons frame frames ih =>
    cases frame with
    | quoted => exact ih h.of_cons hnext
    | opened position items =>
      cases hnext
      exact h.of_cons.opened (h position items List.mem_cons_self) _

/-- A property that the reader passes on to what it builds, for lists at admitted positions. -/
structure Reader.ClosedAt (admits : Position → Prop) (P : Datum → Prop) : Prop where
  nil : P .nil
  list : ∀ position items, admits position → (∀ item ∈ items, P item) →
    P (.list (some position) items)
  quote : ∀ datum, P datum → P (Reader.quote datum)

/-- A property that the reader passes on to what it builds. -/
structure Reader.Closed (P : Datum → Prop) : Prop where
  nil : P .nil
  list : ∀ position items, (∀ item ∈ items, P item) → P (.list (some position) items)
  quote : ∀ datum, P datum → P (Reader.quote datum)

/-- Every expression has a property that the atoms have and the reader passes on for lists at the
positions of the tokens. -/
theorem Program.forall_expressions_at {admits : Position → Prop} {P : Datum → Prop}
    (hP : Reader.ClosedAt admits P) {frames : List Frame} {tokens : List Token}
    (hframes : Reader.ItemsHave P frames) (hopen : Reader.OpenAt admits frames)
    (hatoms : ∀ datum, Token.atom datum ∈ tokens → P datum)
    (hpositions : ∀ position, Token.opening position ∈ tokens → admits position) :
    ∀ expression ∈ (readFrom frames tokens).expressions, P expression := by
  have hnone : ∀ expression ∈ ([] : List Datum), P expression :=
    fun _ hmem => absurd hmem List.not_mem_nil
  induction tokens generalizing frames with
  | nil =>
    cases frames with
    | nil => exact hnone
    | cons frame outer =>
      rw [readFrom]
      · unfold Reader.atEnd
        cases Reader.innermostOpen (frame :: outer) with
        | some position => exact hnone
        | none =>
          rcases Reader.complete_cases hframes hP.nil hP.quote with
            ⟨whole, heq, hwhole⟩ | ⟨next, heq, _⟩
          · simp only [heq]
            intro expression hmem
            rw [List.mem_singleton.1 hmem]
            exact hwhole
          · simp only [heq]
            exact hnone
      · simp
  | cons token tokens ih =>
    have hrest : ∀ datum, Token.atom datum ∈ tokens → P datum :=
      fun datum hmem => hatoms datum (List.mem_cons_of_mem _ hmem)
    have hlater : ∀ position, Token.opening position ∈ tokens → admits position :=
      fun position hmem => hpositions position (List.mem_cons_of_mem _ hmem)
    have hcomplete {outer : List Frame} {item : Datum} (houter : Reader.ItemsHave P outer)
        (hplaced : Reader.OpenAt admits outer) (hitem : P item)
        (hstep : Reader.step frames token = Reader.complete outer item) :
        ∀ expression ∈ (readFrom frames (token :: tokens)).expressions, P expression := by
      rw [readFrom, hstep]
      rcases Reader.complete_cases houter hitem hP.quote with
        ⟨whole, heq, hwhole⟩ | ⟨next, heq, hnext, _⟩
      · simp only [heq]
        intro expression hmem
        rcases List.mem_cons.1 hmem with rfl | hmem
        · exact hwhole
        · exact ih Reader.itemsHave_nil (fun _ _ hmem => absurd hmem List.not_mem_nil) hrest hlater
            expression hmem
      · simp only [heq]
        exact ih hnext (hplaced.complete heq) hrest hlater
    cases token with
    | opening position =>
      rw [readFrom]
      exact ih (hframes.opened position hnone)
        (hopen.opened (hpositions position List.mem_cons_self) []) hrest hlater
    | quoteMark =>
      rw [readFrom]
      exact ih hframes.quoted hopen.quoted hrest hlater
    | atom item => exact hcomplete hframes hopen (hatoms item List.mem_cons_self) rfl
    | closing =>
      rcases Reader.step_closing frames with hfailed | ⟨position, items, outer, rfl, hstep⟩
      · rw [readFrom, hfailed]
        exact hnone
      · have hposition := hopen position items List.mem_cons_self
        refine hcomplete hframes.of_cons hopen.of_cons (hP.list _ _ hposition ?_) hstep
        intro item hitem
        exact hframes position items List.mem_cons_self item (List.mem_reverse.1 hitem)

/-- Every expression has a property that the atoms have and the reader passes on. -/
theorem Program.forall_expressions {P : Datum → Prop} (hP : Reader.Closed P) {frames : List Frame}
    {tokens : List Token} (hframes : Reader.ItemsHave P frames)
    (hatoms : ∀ datum, Token.atom datum ∈ tokens → P datum) :
    ∀ expression ∈ (readFrom frames tokens).expressions, P expression := by
  have hanywhere : Reader.ClosedAt (fun _ => True) P :=
    ⟨hP.nil, fun position items _ => hP.list position items, hP.quote⟩
  exact forall_expressions_at hanywhere hframes (fun _ _ _ => trivial) hatoms fun _ _ => trivial

/-- An expression that is read has a property that lexemes have and the reader passes on. -/
theorem Datum.of_read {P : Datum → Prop} (hP : Reader.Closed P)
    (hlexeme : ∀ datum, Lexeme datum → P datum) {source text : String} {datum : Datum}
    (h : Datum.read source text = .ok datum) : P datum := by
  obtain ⟨tokens, rest, hscan, hread⟩ := Datum.read_eq_ok_iff.1 h
  cases tokens with
  | nil =>
    cases hread
    exact hP.nil
  | cons token tokens =>
    have hall := Program.forall_expressions hP Reader.itemsHave_nil
      fun datum hmem => hlexeme datum (Token.lexeme_of_scan hscan datum hmem)
    rw [Program.readFrom_eq_cons (.inr (List.cons_ne_nil _ _)) hread] at hall
    exact hall datum List.mem_cons_self

/-- Data of the sort that texts hold: lexemes, lists, and the nil that a last quote mark quotes. -/
inductive Datum.Plain : Datum → Prop where
  | nil : Plain .nil
  | atom {datum : Datum} (h : Lexeme datum) : Plain datum
  | list (position : Option Position) {items : List Datum} (h : ∀ item ∈ items, Plain item) :
      Plain (.list position items)

theorem Datum.Plain.erase {datum : Datum} (h : datum.Plain) : datum.erase.Plain := by
  induction h with
  | nil =>
    rw [Datum.erase]
    · exact .nil
    · simp
  | atom h =>
    rw [h.erase_eq]
    exact .atom h
  | list position _ ih =>
    rw [Datum.erase, Datum.eraseAll_eq_map]
    apply Plain.list
    intro item hitem
    obtain ⟨inner, hinner, rfl⟩ := List.mem_map.1 hitem
    exact ih inner hinner

theorem Reader.closed_plain : Reader.Closed Datum.Plain where
  nil := .nil
  list position _ h := .list (some position) h
  quote datum h := by
    apply Datum.Plain.list
    intro item hitem
    rcases List.mem_cons.1 hitem with rfl | hitem
    · exact .atom Reader.lexeme_quote
    · rcases List.mem_cons.1 hitem with rfl | hitem
      · exact h.erase
      · exact absurd hitem List.not_mem_nil

end Reckoner
