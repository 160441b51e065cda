import Mathlib.Data.List.Nodup
import Reckoner.Proofs.Action
import Reckoner.Proofs.FileTree
import Reckoner.Session

/-!
# What the documentation keeps

`outline` says from the declarations alone which chapters there are and which functions stand in
them; the chapters of the catalogue are the same.  The pages are written one after another, so a
file holds the page that was written last under its name.

A chapter's name in the folder is made from its title, and different titles can give the same name.
So the documentation is complete exactly if no chapter is written over the index, and what a chapter
has to say is also in the last chapter of the same name: `documented_iff`.
-/

namespace Reckoner.Catalogue

open Reckoner.Action Reckoner.Path

/-! ## The chapters that are declared -/

/-- A call that adds to a catalogue. -/
inductive Entry where
  | title (text : String)
  | function (d : Declaration)

namespace Entry

/-- Names of functions do not look like headings. -/
def Proper : Entry → Prop
  | title _ => True
  | function d => d.name.toList.head? ≠ some '#'

instance : DecidablePred Proper
  | title _ => inferInstanceAs (Decidable True)
  | function d => inferInstanceAs (Decidable (d.name.toList.head? ≠ some '#'))

/-- The call. -/
def declare : Entry → Action Unit
  | title text => Session.declareTitle text
  | function d => Session.declare d

/-- The catalogue after the call. -/
def addTo (c : Catalogue) : Entry → Catalogue
  | title text => c.addTitle text
  | function d => c.add d

/-- The declaration in a call. -/
def declaration? : Entry → Option Declaration
  | title _ => none
  | function d => some d

/-- The text in the order list. -/
def text : Entry → String
  | title text => "#" ++ text
  | function d => d.name

end Entry

/-- The declaration that is in force under the name of another one: the latest. -/
def inForce (es : List Entry) (d : Declaration) : Declaration :=
  ((es.filterMap Entry.declaration?).reverse.find? (·.name == d.name)).getD d

/-- The functions before the first title, and the chapters after it, with the declarations that are
in force. -/
def grouped (current : Declaration → Declaration) : List Entry → List Declaration × List Chapter
  | [] => ([], [])
  | .function d :: rest => (current d :: (grouped current rest).1, (grouped current rest).2)
  | .title text :: rest =>
    let title := String.ofList (Text.trim text.toList)
    ([], ⟨title, slug title, (grouped current rest).1⟩ :: (grouped current rest).2)

/-- The chapters that calls declare, those without functions left out.  Functions before the first
title make up a general chapter. -/
def outline (es : List Entry) : List Chapter :=
  let groups := grouped (inForce es) es
  (⟨"General", slug "General", groups.1⟩ :: groups.2).filter fun chapter =>
    !chapter.functions.isEmpty

/-- The catalogue that calls leave. -/
def ofEntries (es : List Entry) : Catalogue := es.foldl Entry.addTo {}

variable {es : List Entry} {i j : Interpreter} {folder : String}

theorem ofEntries_concat (es : List Entry) (e : Entry) :
    ofEntries (es ++ [e]) = e.addTo (ofEntries es) := by
  simp [ofEntries]

theorem runFrom_declare (e : Entry) (i : Interpreter) :
    ∃ k, (e.declare).runFrom i = (.ok (), k) ∧ k.catalogue = e.addTo i.catalogue := by
  cases e with
  | title text => exact ⟨_, rfl, rfl⟩
  | function d => exact ⟨_, rfl, rfl⟩

/-- Declarations do not fail, and leave their catalogue. -/
theorem runFrom_declarations (es : List Entry) (i : Interpreter) :
    ∃ k, (es.forM Entry.declare).runFrom i = (.ok (), k) ∧
      k.catalogue = es.foldl Entry.addTo i.catalogue := by
  induction es generalizing i with
  | nil => exact ⟨i, rfl, rfl⟩
  | cons e rest ih =>
    obtain ⟨k, hrun, hcatalogue⟩ := runFrom_declare e i
    obtain ⟨l, hrest, hlast⟩ := ih k
    refine ⟨l, (runFrom_bind_ok hrun).trans hrest, ?_⟩
    rw [hlast, hcatalogue, List.foldl_cons]

theorem entries_ofEntries (es : List Entry) : (ofEntries es).entries = es.map Entry.text := by
  induction es using List.reverseRecOn with
  | nil => rfl
  | append_singleton es e ih =>
    rw [ofEntries_concat, List.map_append, ← ih]
    cases e with
    | title text => rfl
    | function d => rfl

theorem find?_ofEntries (es : List Entry) (name : String) :
    (ofEntries es).find? name =
      (es.filterMap Entry.declaration?).reverse.find? (·.name == name) := by
  induction es using List.reverseRecOn with
  | nil => rfl
  | append_singleton es e ih =>
    rw [ofEntries_concat, List.filterMap_append, List.reverse_append]
    cases e with
    | title text => exact ih
    | function d =>
      change ((d.name, d) :: (ofEntries es).byName).lookup name = List.find? _ (d :: _)
      by_cases hname : d.name = name
      · rw [List.find?_cons_of_pos (by simpa using hname), ← hname, List.lookup_cons_self]
      · rw [List.find?_cons_of_neg (by simpa using hname), List.lookup_cons,
          beq_false_of_ne (Ne.symm hname)]
        exact ih

theorem heading?_text_title (text : String) : heading? (Entry.title text).text = some text := by
  simp [heading?, Entry.text]

theorem heading?_text_function {d : Declaration} (h : (Entry.function d).Proper) :
    heading? (Entry.function d).text = none := by
  change heading? d.name = none
  rw [heading?]
  split
  · next title htext => exact (h (by rw [htext]; rfl)).elim
  · rfl

/-- A declared function has a declaration in force. -/
theorem find?_of_mem {d : Declaration} (h : .function d ∈ es) :
    (ofEntries es).find? d.name = some (inForce es d) := by
  have hmem : d ∈ (es.filterMap Entry.declaration?).reverse :=
    List.mem_reverse.2 (List.mem_filterMap.2 ⟨_, h, rfl⟩)
  rw [find?_ofEntries, inForce]
  cases hfind : (es.filterMap Entry.declaration?).reverse.find? (·.name == d.name) with
  | some e => rfl
  | none => simpa using List.find?_eq_none.1 hfind d hmem

/-- What an entry does to the chapters, which are kept latest first. -/
def Entry.grow (current : Declaration → Declaration) (sofar : List Chapter) : Entry → List Chapter
  | .title text => startChapter text :: sofar
  | .function d => addToLatest (current d) sofar

theorem chapters_ofEntries (h : ∀ e ∈ es, e.Proper) :
    (ofEntries es).chapters = (es.foldl (Entry.grow (inForce es)) []).reverse := by
  rw [chapters, entries_ofEntries, List.foldl_map]
  congr 1
  refine List.foldl_ext _ _ _ fun sofar e he => ?_
  cases e with
  | title text => rw [heading?_text_title]; rfl
  | function d =>
    rw [heading?_text_function (h _ he)]
    simp only [Entry.text, find?_of_mem he, Entry.grow]

theorem foldl_grow_cons (current : Declaration → Declaration) (es : List Entry) (chapter : Chapter)
    (earlier : List Chapter) :
    es.foldl (Entry.grow current) (chapter :: earlier) =
      (grouped current es).2.reverse ++
        { chapter with functions := chapter.functions ++ (grouped current es).1 } :: earlier := by
  induction es generalizing chapter earlier with
  | nil => simp [grouped]
  | cons e rest ih =>
    cases e with
    | title text => simp [grouped, Entry.grow, ih, startChapter]
    | function d => simp [grouped, Entry.grow, ih, addToLatest]

theorem slug_general : slug "General" = "general" := by decide

theorem filter_foldl_grow (current : Declaration → Declaration) (es : List Entry) :
    (es.foldl (Entry.grow current) []).reverse.filter (fun chapter => !chapter.functions.isEmpty) =
      (⟨"General", slug "General", (grouped current es).1⟩ :: (grouped current es).2).filter
        fun chapter => !chapter.functions.isEmpty := by
  match es with
  | [] => rfl
  | .title text :: rest =>
    rw [List.foldl_cons, Entry.grow, foldl_grow_cons]
    simp [grouped, startChapter]
  | .function d :: rest =>
    rw [List.foldl_cons, Entry.grow, addToLatest, foldl_grow_cons, slug_general]
    simp [grouped, generalChapter]

/-- The chapters of a catalogue that have a page are those of the outline. -/
theorem filledChapters_ofEntries (h : ∀ e ∈ es, e.Proper) :
    (ofEntries es).filledChapters = outline es := by
  rw [filledChapters, chapters_ofEntries h, filter_foldl_grow]
  rfl

/-! ## The files that are written -/

/-- Write files into a folder one after another. -/
def writeAll (folder : String) (documents : List (String × String)) (t : FileTree) :
    Except FileError FileTree :=
  documents.foldlM (fun t document => t.create (join folder document.1) document.2) t

/-- A name that a document can have. -/
structure IsDocument (name : String) : Prop extends IsName name where
  not_null : name ≠ "null"

theorem IsDocument.key_ne_null {name : String} (h : IsDocument name) {fs : List String}
    (hfs : ∀ p ∈ fs, IsName p) : absolute (fs ++ [name]) ≠ "/dev/null" := by
  have hnull : absolute ["dev", "null"] = "/dev/null" := by decide
  have hparts : ∀ p ∈ ["dev", "null"], IsPart p := by
    simpa using ⟨⟨by decide, by decide⟩, by decide, by decide⟩
  rw [← hnull, Ne, absolute_inj (isPart_concat (isPart_of_isName hfs) h.toIsPart) hparts]
  intro heq
  have hlast := congrArg List.getLast? heq
  rw [List.getLast?_concat] at hlast
  exact h.not_null (Option.some.inj hlast)

theorem exists_of_writeAll_concat {documents : List (String × String)} {d : String × String}
    {t t' : FileTree} (h : writeAll folder (documents ++ [d]) t = .ok t') :
    ∃ t₁, writeAll folder documents t = .ok t₁ ∧ t₁.create (join folder d.1) d.2 = .ok t' := by
  rw [writeAll, List.foldlM_append, ← writeAll] at h
  cases hwrite : writeAll folder documents t with
  | error e =>
    rw [hwrite] at h
    cases h
  | ok t₁ =>
    rw [hwrite] at h
    exact ⟨t₁, rfl, (bind_pure (t₁.create (join folder d.1) d.2)).symm.trans h⟩

/-- The content that is written last under a name can be read. -/
theorem read_of_writeAll {documents : List (String × String)} {t t' : FileTree}
    (hnames : ∀ d ∈ documents, IsDocument d.1) (h : writeAll folder documents t = .ok t')
    {name content : String} (hname : IsName name)
    (hlast : documents.reverse.lookup name = some content) :
    t'.read (join folder name) = .ok content := by
  induction documents using List.reverseRecOn generalizing t' with
  | nil => cases hlast
  | append_singleton documents d ih =>
    obtain ⟨t₁, hwrite, hcreate⟩ := exists_of_writeAll_concat h
    obtain ⟨hearlier, hd⟩ := List.forall_mem_append.1 hnames
    replace hd := List.forall_mem_singleton.1 hd
    obtain ⟨fs, hfs, hkey⟩ := t₁.exists_key_join folder
    have hparts := isPart_of_isName hfs
    have hself := hkey d.1 hd.toIsName
    have hnull : t₁.key (join folder d.1) ≠ "/dev/null" := hself ▸ hd.key_ne_null hfs
    rw [List.reverse_append, List.reverse_singleton, List.singleton_append] at hlast
    by_cases hsame : name = d.1
    · subst hsame
      rw [List.lookup_cons_self] at hlast
      cases hlast
      exact FileTree.read_create_self hfs hd.toIsName hself hnull hcreate
    · rw [List.lookup_cons, beq_false_of_ne hsame] at hlast
      refine FileTree.read_create_other hfs hd.toIsName hself hnull hcreate ?_
        (ih hearlier hwrite hlast)
      rw [hkey name hname, hself, Ne, absolute_inj (isPart_concat hparts hname.toIsPart)
        (isPart_concat hparts hd.toIsPart)]
      simpa using hsame

/-- Write a document into a folder, as a step of a loop. -/
def writeOne (folder : String) : String × String → Action (ForInStep PUnit)
  | (name, content) => do
    let path := join folder name
    let i ← get
    let files ← ofExcept (Fault.documentFile path) (i.files.create path content)
    set { i with files }
    return .yield ⟨⟩

theorem exists_of_writeOne {d : String × String} {step : ForInStep PUnit}
    (h : (writeOne folder d).runFrom i = (.ok step, j)) :
    step = .yield ⟨⟩ ∧ i.files.create (join folder d.1) d.2 = .ok j.files := by
  obtain ⟨name, content⟩ := d
  rw [writeOne, runFrom_get_bind] at h
  obtain ⟨files, k, hcreate, h⟩ := exists_of_runFrom_bind h
  cases hresult : i.files.create (join folder name) content with
  | error e =>
    rw [hresult] at hcreate
    cases hcreate
  | ok t =>
    rw [hresult] at hcreate
    cases hcreate
    cases h
    exact ⟨rfl, rfl⟩

theorem writeAll_of_forIn {documents : List (String × String)}
    (h : (forIn documents ⟨⟩ fun d (_ : PUnit) => writeOne folder d).runFrom i = (.ok ⟨⟩, j)) :
    writeAll folder documents i.files = .ok j.files := by
  induction documents generalizing i with
  | nil =>
    cases h
    rfl
  | cons d rest ih =>
    rw [List.forIn_cons] at h
    obtain ⟨step, k, hstep, h⟩ := exists_of_runFrom_bind h
    obtain ⟨rfl, hcreate⟩ := exists_of_writeOne hstep
    rw [writeAll, List.foldlM_cons, hcreate]
    exact ih h

theorem writeDocuments_eq (folder : String) : Session.writeDocuments folder = (do
    let i ← get
    let files ← ofExcept (Fault.documentFolder folder) (i.files.makeFolder folder)
    set { i with files }
    forIn i.catalogue.documents ⟨⟩ fun d (_ : PUnit) => writeOne folder d
    pure ()) := rfl

/-- Writing the documentation makes the folder and writes the documents. -/
theorem exists_of_writeDocuments (h : (Session.writeDocuments folder).runFrom i = (.ok (), j)) :
    ∃ t, writeAll folder i.catalogue.documents t = .ok j.files := by
  rw [writeDocuments_eq, runFrom_get_bind] at h
  obtain ⟨files, k, -, hrest⟩ := exists_of_runFrom_bind h
  obtain ⟨_, l, hset, hlast⟩ := exists_of_runFrom_bind hrest
  obtain ⟨_, m, hloop, hend⟩ := exists_of_runFrom_bind hlast
  have hfiles : l.files = files := (congrArg (fun run => run.2.files) hset).symm
  have hsame : m = j := congrArg Prod.snd hend
  exact ⟨files, hsame ▸ hfiles ▸ writeAll_of_forIn hloop⟩

/-! ## Names of files -/

theorem staysInSlug_of_mem_slug {title : String} {c : Char} (h : c ∈ (slug title).toList) :
    staysInSlug c = true := by
  rw [slug] at h
  split_ifs at h with hkept
  · have hchapter : "chapter".toList.all staysInSlug = true := by decide
    exact List.all_eq_true.1 hchapter c h
  · rw [String.toList_ofList] at h
    exact (List.mem_filter.1 h).2

theorem isDocument_slug (title : String) : IsDocument (slug title ++ ".md") := by
  have hne {name : String} (h : name.toList.getLast? ≠ some 'd') : slug title ++ ".md" ≠ name := by
    rintro rfl
    simp at h
  refine ⟨⟨⟨hne (by decide), ?_⟩, hne (by decide), hne (by decide)⟩, hne (by decide)⟩
  rw [String.toList_append, List.mem_append, not_or]
  exact ⟨fun h => absurd (staysInSlug_of_mem_slug h) (by decide), by decide⟩

theorem slug_of_mem_grouped {current : Declaration → Declaration} {chapter : Chapter}
    (h : chapter ∈ (grouped current es).2) : chapter.slug = slug chapter.title := by
  induction es with
  | nil => cases h
  | cons e rest ih =>
    cases e with
    | function d => exact ih h
    | title text =>
      simp only [grouped, List.mem_cons] at h
      rcases h with hfirst | hrest
      · simp only [hfirst]
      · exact ih hrest

theorem slug_of_mem_outline {chapter : Chapter} (h : chapter ∈ outline es) :
    chapter.slug = slug chapter.title := by
  rcases List.mem_cons.1 (List.mem_filter.1 h).1 with hfirst | hgroup
  · simp only [hfirst]
  · exact slug_of_mem_grouped hgroup

/-! ## The documentation that is asked for -/

/-- The index of chapters: a heading and one link for each. -/
def contents (chapters : List Chapter) : String :=
  "# Documentation\n\n" ++
    String.join (chapters.map fun chapter =>
      "- [" ++ chapter.title ++ "](" ++ chapter.slug ++ ".md)\n")

/-- What a chapter has to say: its heading and the sections of its functions. -/
def pieces (chapter : Chapter) : List String :=
  ("# " ++ chapter.title ++ "\n\n") :: chapter.functions.map functionSection

/-- Texts stand in a text, one after another. -/
def InTurn : List String → String → Prop
  | [], _ => True
  | piece :: rest, text => ∃ before after, text = before ++ piece ++ after ∧ InTurn rest after

/-- The index has a link for each chapter, and the file behind the link has what the chapter has to
say. -/
structure Documented (files : FileTree) (folder : String) (chapters : List Chapter) : Prop where
  index : files.read (join folder "index.md") = .ok (contents chapters)
  page : ∀ chapter ∈ chapters, ∃ text,
    files.read (join folder (chapter.slug ++ ".md")) = .ok text ∧ InTurn (pieces chapter) text

/-- The last chapter of a name. -/
def lastOf (chapters : List Chapter) (name : String) : Option Chapter :=
  chapters.reverse.find? (·.slug == name)

theorem inTurn_join (texts : List String) : InTurn texts (String.join texts) := by
  induction texts with
  | nil => trivial
  | cons text rest ih => exact ⟨"", String.join rest, by simp, ih⟩

theorem InTurn.infix {piece text : String} {rest : List String} (h : InTurn (piece :: rest) text) :
    piece.toList <:+: text.toList := by
  obtain ⟨before, after, rfl, -⟩ := h
  rw [String.toList_append, String.toList_append]
  exact List.infix_append _ _ _

theorem page_eq_join (chapter : Chapter) : page chapter = String.join (pieces chapter) := by
  simp [page, pieces]

theorem lookup_pages (chapters : List Chapter) (name : String) :
    (chapters.map fun chapter => (chapter.slug ++ ".md", page chapter)).lookup (name ++ ".md") =
      (chapters.find? (·.slug == name)).map page := by
  induction chapters with
  | nil => rfl
  | cons chapter rest ih =>
    by_cases hname : chapter.slug = name
    · rw [List.map_cons, hname, List.lookup_cons_self,
        List.find?_cons_of_pos (by simpa using hname)]
      rfl
    · have hne : name ++ ".md" ≠ chapter.slug ++ ".md" := by simpa using Ne.symm hname
      rw [List.map_cons, List.lookup_cons, beq_false_of_ne hne,
        List.find?_cons_of_neg (by simpa using hname)]
      exact ih

theorem lookup_first {chapters : List Chapter} {name first text : String}
    (hname : name ++ ".md" = first) (h : lastOf chapters name = none) :
    (((first, text) :: chapters.map fun chapter =>
      (chapter.slug ++ ".md", page chapter)).reverse.lookup first) = some text := by
  subst hname
  rw [List.reverse_cons, ← List.map_reverse, List.lookup_append, lookup_pages, ← lastOf, h]
  exact List.lookup_cons_self

theorem exists_lastOf {chapters : List Chapter} {chapter : Chapter} (h : chapter ∈ chapters) :
    ∃ last, lastOf chapters chapter.slug = some last :=
  Option.isSome_iff_exists.1
    (List.find?_isSome.2 ⟨chapter, List.mem_reverse.2 h, beq_self_eq_true _⟩)

theorem of_lastOf {chapters : List Chapter} {name : String} {last : Chapter}
    (h : lastOf chapters name = some last) : last ∈ chapters ∧ last.slug = name :=
  ⟨List.mem_reverse.1 (List.mem_of_find?_eq_some h), by simpa using List.find?_some h⟩

theorem lastOf_eq_none {chapters : List Chapter} {name : String}
    (h : ∀ chapter ∈ chapters, chapter.slug ≠ name) : lastOf chapters name = none :=
  List.find?_eq_none.2 fun chapter hmem => by simpa using h chapter (List.mem_reverse.1 hmem)

/-! ## The index and the pages -/

theorem trim_cons {c : Char} (h : Text.isBlank c = false) (rest : List Char) :
    ∃ more, Text.trim (c :: rest) = c :: more := by
  have hfirst : (c :: rest).dropWhile Text.isBlank = c :: rest :=
    List.dropWhile_cons_of_neg (by simpa using h)
  have hlast : [c].dropWhile Text.isBlank = [c] := List.dropWhile_cons_of_neg (by simpa using h)
  rw [Text.trim, hfirst, List.reverse_cons, List.dropWhile_append, hlast]
  split_ifs with hblank
  · exact ⟨[], rfl⟩
  · exact ⟨_, List.reverse_concat⟩

/-- A title that starts like the heading of the index has another name. -/
theorem slug_cons (rest : List Char) :
    ∃ more, slug (String.ofList ('D' :: rest)) = String.ofList ('d' :: more) := by
  obtain ⟨more, htrim⟩ := trim_cons (c := 'D') (by decide) rest
  have hlower : Text.lowerToAscii 'D' = 'd' := by decide
  have hstays : staysInSlug 'd' = true := by decide
  rw [slug, String.toList_ofList, htrim, List.map_cons, hlower, List.map_cons,
    if_neg (by decide : 'd' ≠ ' '), List.filter_cons_of_pos hstays]
  exact ⟨_, rfl⟩

theorem toList_append_append (a b c d : String) :
    (a ++ b ++ c ++ d).toList = a.toList ++ (b.toList ++ (c.toList ++ d.toList)) := by
  simp only [String.toList_append, List.append_assoc]

theorem page_ne_contents {chapter : Chapter} (hslug : chapter.slug = slug chapter.title)
    (hindex : chapter.slug = "index") (chapters : List Chapter) :
    page chapter ≠ contents chapters := by
  intro heq
  obtain ⟨links, hcontents⟩ : ∃ rest, (contents chapters).toList = '#' :: ' ' :: 'D' :: rest :=
    ⟨_, String.toList_append⟩
  obtain ⟨sections, hpage⟩ : ∃ rest,
      (page chapter).toList = '#' :: ' ' :: (chapter.title.toList ++ '\n' :: rest) :=
    ⟨_, toList_append_append "# " chapter.title "\n\n" _⟩
  rw [heq, hcontents, List.cons.injEq, List.cons.injEq] at hpage
  obtain ⟨-, -, htext⟩ := hpage
  cases htitle : chapter.title.toList with
  | nil =>
    rw [htitle, List.nil_append, List.cons.injEq] at htext
    exact absurd htext.1 (by decide)
  | cons c rest =>
    rw [htitle, List.cons_append, List.cons.injEq] at htext
    obtain ⟨more, hmore⟩ := slug_cons rest
    rw [htext.1, ← htitle, String.ofList_toList, ← hslug, hindex] at hmore
    have hhead : (String.ofList ('d' :: more)).toList.head? = some 'd' := by
      rw [String.toList_ofList, List.head?_cons]
    have hchars : "index".toList.head? = some 'd' :=
      (congrArg (fun text => text.toList.head?) hmore).trans hhead
    exact absurd hchars (by decide)

theorem documents_ofEntries (h : ∀ e ∈ es, e.Proper) :
    (ofEntries es).documents = ("index.md", contents (outline es)) ::
      (outline es).map fun chapter => (chapter.slug ++ ".md", page chapter) := by
  rw [← filledChapters_ofEntries h]
  rfl

section Run

variable (hproper : ∀ e ∈ es, e.Proper) (hempty : i.catalogue = {})
  (hrun : (es.forM Entry.declare >>= fun _ => Session.writeDocuments folder).runFrom i =
    (.ok (), j))
include hproper hempty hrun

theorem exists_writeAll : ∃ t, writeAll folder (("index.md", contents (outline es)) ::
    (outline es).map fun chapter => (chapter.slug ++ ".md", page chapter)) t = .ok j.files := by
  obtain ⟨k, hdeclare, hcatalogue⟩ := runFrom_declarations es i
  rw [runFrom_bind_ok hdeclare] at hrun
  obtain ⟨t, hwrite⟩ := exists_of_writeDocuments hrun
  rw [hempty] at hcatalogue
  rw [hcatalogue] at hwrite
  exact ⟨t, documents_ofEntries hproper ▸ hwrite⟩

theorem read_written {name text : String} (hname : IsName name)
    (hlast : ((("index.md", contents (outline es)) ::
      (outline es).map fun chapter => (chapter.slug ++ ".md", page chapter)).reverse.lookup name) =
        some text) : j.files.read (join folder name) = .ok text := by
  obtain ⟨t, hwrite⟩ := exists_writeAll hproper hempty hrun
  refine read_of_writeAll (fun d hd => ?_) hwrite hname hlast
  rcases List.mem_cons.1 hd with rfl | hpage
  · have hindex : slug "index" ++ ".md" = "index.md" := by decide
    exact hindex ▸ isDocument_slug "index"
  · obtain ⟨chapter, hchapter, rfl⟩ := List.mem_map.1 hpage
    rw [slug_of_mem_outline hchapter]
    exact isDocument_slug chapter.title

/-- A page is that of the last chapter of its name. -/
theorem read_page {chapter last : Chapter} (hchapter : chapter ∈ outline es)
    (hlast : lastOf (outline es) chapter.slug = some last) :
    j.files.read (join folder (chapter.slug ++ ".md")) = .ok (page last) := by
  have hname : IsName (chapter.slug ++ ".md") := by
    rw [slug_of_mem_outline hchapter]
    exact (isDocument_slug chapter.title).toIsName
  refine read_written hproper hempty hrun hname ?_
  rw [List.reverse_cons, ← List.map_reverse, List.lookup_append, lookup_pages, ← lastOf, hlast]
  rfl

/-- The index is written first, so it stays unless a chapter has its name. -/
theorem read_index (h : ∀ chapter ∈ outline es, chapter.slug ≠ "index") :
    j.files.read (join folder "index.md") = .ok (contents (outline es)) := by
  have hname : slug "index" ++ ".md" = "index.md" := by decide +kernel
  refine read_written hproper hempty hrun (hname ▸ (isDocument_slug "index").toIsName) ?_
  exact lookup_first (by decide +kernel : "index" ++ ".md" = "index.md") (lastOf_eq_none h)

end Run

/-- After declarations and a documentation that could be written, the index and the pages have what
was declared exactly if no chapter has the name of the index, and what a chapter has to say is on
the page of the last chapter of its name.  It is enough that the names of the chapters differ. -/
theorem documented_iff (es : List Entry) (folder : String) (i j : Interpreter)
    (hproper : ∀ e ∈ es, e.Proper) (hempty : i.catalogue = {})
    (hrun : (es.forM Entry.declare >>= fun _ => Session.writeDocuments folder).runFrom i =
      (.ok (), j)) :
    (Documented j.files folder (outline es) ↔ ∀ chapter ∈ outline es, chapter.slug ≠ "index" ∧
      ∀ last, lastOf (outline es) chapter.slug = some last →
        InTurn (pieces chapter) (page last)) ∧
    (((outline es).map (·.slug)).Nodup → "index" ∉ (outline es).map (·.slug) →
      Documented j.files folder (outline es)) := by
  have hcomplete (h : ∀ chapter ∈ outline es, chapter.slug ≠ "index" ∧
      ∀ last, lastOf (outline es) chapter.slug = some last → InTurn (pieces chapter) (page last)) :
      Documented j.files folder (outline es) := by
    refine ⟨read_index hproper hempty hrun fun chapter hchapter => (h chapter hchapter).1, ?_⟩
    intro chapter hchapter
    obtain ⟨last, hlast⟩ := exists_lastOf hchapter
    have hread := read_page hproper hempty hrun hchapter hlast
    exact ⟨page last, hread, (h chapter hchapter).2 last hlast⟩
  refine ⟨⟨fun hdocumented chapter hchapter => ⟨fun hindex => ?_, fun last hlast => ?_⟩, hcomplete⟩,
    fun hnodup hindex => hcomplete fun chapter hchapter => ⟨fun h => ?_, fun last hlast => ?_⟩⟩
  · obtain ⟨last, hlast⟩ := exists_lastOf hchapter
    obtain ⟨hmem, hname⟩ := of_lastOf hlast
    have hfile : chapter.slug ++ ".md" = "index.md" :=
      (congrArg (· ++ ".md") hindex).trans (by decide +kernel)
    have hread := read_page hproper hempty hrun hchapter hlast
    rw [hfile, hdocumented.index] at hread
    exact page_ne_contents (slug_of_mem_outline hmem) (hname.trans hindex) _
      (Except.ok.inj hread).symm
  · obtain ⟨text, hread, hpieces⟩ := hdocumented.page chapter hchapter
    rw [read_page hproper hempty hrun hchapter hlast] at hread
    cases hread
    exact hpieces
  · exact hindex (List.mem_map.2 ⟨chapter, hchapter, h⟩)
  · obtain ⟨hmem, hname⟩ := of_lastOf hlast
    obtain rfl := List.inj_on_of_nodup_map hnodup hmem hchapter hname
    rw [page_eq_join]
    exact inTurn_join _

/-- A function without parameters. -/
def nullary (name : String) : Declaration := ⟨name, "", 0, 0, [], .any, none⟩

/-- The run of declarations and documentation in an empty interpreter. -/
def documentation (es : List Entry) : Action Unit :=
  es.forM Entry.declare >>= fun _ => Session.writeDocuments "docs"

theorem eq_ok_of_isOk {action : Action Unit} (h : (action.runFrom i).1.isOk = true) :
    action.runFrom i = (.ok (), (action.runFrom i).2) := by
  rcases runFrom_cases action i with ⟨⟨⟩, k, hrun⟩ | ⟨failure, k, hrun⟩
  · rw [hrun]
  · rw [hrun] at h
    cases h

/-- A function before the first title, and one after it. -/
def generalAndSums : List Entry :=
  [.function (nullary "f"), .title " Sums ", .function (nullary "g")]

theorem documented_iff_general :
    ((∀ e ∈ generalAndSums, e.Proper) ∧ ({} : Interpreter).catalogue = {} ∧
      (documentation generalAndSums).runFrom {} =
        (.ok (), ((documentation generalAndSums).runFrom {}).2)) ∧
    Documented ((documentation generalAndSums).runFrom {}).2.files "docs"
      (outline generalAndSums) := by
  have hproper : ∀ e ∈ generalAndSums, e.Proper := by decide
  have hrun : (documentation generalAndSums).runFrom {} =
      (.ok (), ((documentation generalAndSums).runFrom {}).2) := eq_ok_of_isOk (by decide +kernel)
  have hslugs : (outline generalAndSums).map (·.slug) = ["general", "sums"] := by decide +kernel
  refine ⟨⟨hproper, rfl, hrun⟩, (documented_iff _ _ _ _ hproper rfl hrun).2 ?_ ?_⟩
  · rw [hslugs]
    decide
  · rw [hslugs]
    decide

/-- Two chapters with titles that differ in case only. -/
def twins : List Entry :=
  [.title "A", .function (nullary "f"), .title "a", .function (nullary "g")]

/-- The page of a chapter is lost when a later chapter has the same name. -/
theorem not_documented_twins :
    (∀ e ∈ twins, e.Proper) ∧ ({} : Interpreter).catalogue = {} ∧
    (documentation twins).runFrom {} = (.ok (), ((documentation twins).runFrom {}).2) ∧
    ¬Documented ((documentation twins).runFrom {}).2.files "docs" (outline twins) := by
  have hproper : ∀ e ∈ twins, e.Proper := by decide
  have hrun : (documentation twins).runFrom {} =
      (.ok (), ((documentation twins).runFrom {}).2) := eq_ok_of_isOk (by decide +kernel)
  refine ⟨hproper, rfl, hrun, fun hdocumented => ?_⟩
  have htitles : (outline twins).map (·.title) = ["A", "a"] := by decide +kernel
  have hlost : (lastOf (outline twins) (slug "A")).all fun last =>
      !decide ("# A\n\n".toList <:+: (page last).toList) := by decide +kernel
  have hmem : "A" ∈ (outline twins).map (·.title) := by simp [htitles]
  obtain ⟨chapter, hchapter, htitle⟩ := List.mem_map.1 hmem
  obtain ⟨last, hlast⟩ := exists_lastOf hchapter
  obtain ⟨text, hread, hpieces⟩ := hdocumented.page chapter hchapter
  rw [read_page hproper rfl hrun hchapter hlast] at hread
  cases hread
  have hheading : "# " ++ "A" ++ "\n\n" = "# A\n\n" := by decide
  have hfound := hpieces.infix
  rw [slug_of_mem_outline hchapter, htitle] at hlast
  rw [htitle, hheading] at hfound
  rw [hlast, Option.all_some, decide_eq_true hfound] at hlost
  cases hlost

end Reckoner.Catalogue
