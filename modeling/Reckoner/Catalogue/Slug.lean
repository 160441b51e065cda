import Reckoner.Text.Blank

/-!
# File names of chapters
-/

namespace Reckoner.Catalogue

/-- Whether a character stays in a slug. -/
def staysInSlug (c : Char) : Bool :=
  ('a' ≤ c && c ≤ 'z') || c.isDigit || c == '-' || c == '_'

/-- A title as a file name: lower case, spaces as hyphens, and nothing but ASCII letters, digits,
hyphens and underscores; never empty. -/
def slug (title : String) : String :=
  let lowered := (Text.trim title.toList).map Text.lowerToAscii
  let kept := (lowered.map fun c => if c = ' ' then '-' else c).filter staysInSlug
  if kept.isEmpty then "chapter" else String.ofList kept

end Reckoner.Catalogue
