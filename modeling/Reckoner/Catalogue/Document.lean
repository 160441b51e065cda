import Reckoner.Catalogue.Basic
import Reckoner.Catalogue.Slug
import Reckoner.Text.Integer

/-!
# Documents about the declared functions

`chapters` groups the declarations under the headings before them; what comes before the first
heading belongs to a general chapter.  Chapters without functions are left out of the documents.
There is an index with one link per chapter, and one page per chapter.
-/

namespace Reckoner.Catalogue

/-- A chapter with its functions. -/
structure Chapter where
  title : String
  slug : String
  functions : List Declaration

/-- The chapter of functions that stand before every heading. -/
def generalChapter : Chapter := ⟨"General", "general", []⟩

/-- The chapter that a heading starts. -/
def startChapter (heading : String) : Chapter :=
  let title := String.ofList (Text.trim heading.toList)
  ⟨title, slug title, []⟩

/-- Put a function at the end of the latest chapter.  Chapters are kept latest first. -/
def addToLatest (d : Declaration) : List Chapter → List Chapter
  | [] => [{ generalChapter with functions := [d] }]
  | chapter :: earlier => { chapter with functions := chapter.functions ++ [d] } :: earlier

/-- All chapters in order, empty ones included. -/
def chapters (c : Catalogue) : List Chapter :=
  let grow (sofar : List Chapter) (entry : String) : List Chapter :=
    match heading? entry with
    | some heading => startChapter heading :: sofar
    | none =>
      match c.find? entry with
      | some d => addToLatest d sofar
      | none => sofar
  (c.entries.foldl grow []).reverse

/-- The chapters that have a page. -/
def filledChapters (c : Catalogue) : List Chapter :=
  c.chapters.filter fun chapter => !chapter.functions.isEmpty

/-- The section of a function on the page of its chapter. -/
def functionSection (d : Declaration) : String :=
  "## " ++ d.name ++ "\n\n" ++
  (if d.description = "" then "" else d.description ++ "\n\n") ++
  "**Allowed number of parameters:** " ++ Text.ofInteger d.least ++ "–" ++
    Text.ofInteger d.most ++ "\n\n" ++
  "### Parameters\n\n" ++
  (if d.parameters.isEmpty then "_This function has no parameters._\n\n"
   else
    String.join (d.parameters.map fun p =>
      "- **" ++ p.name ++ "** (`" ++ p.type.text ++ "`): " ++ p.description ++ "\n") ++ "\n") ++
  "### Returns\n\n`" ++ d.returns.text ++ "`\n\n"

/-- The page of a chapter. -/
def page (chapter : Chapter) : String :=
  "# " ++ chapter.title ++ "\n\n" ++ String.join (chapter.functions.map functionSection)

/-- The page with one link per chapter. -/
def index (c : Catalogue) : String :=
  "# Documentation\n\n" ++
    String.join (c.filledChapters.map fun chapter =>
      "- [" ++ chapter.title ++ "](" ++ chapter.slug ++ ".md)\n")

/-- The files of the documentation in the order in which they are written.  A later file replaces an
earlier one of the same name. -/
def documents (c : Catalogue) : List (String × String) :=
  ("index.md", c.index) ::
    c.filledChapters.map fun chapter => (chapter.slug ++ ".md", page chapter)

end Reckoner.Catalogue
