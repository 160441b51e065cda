import Reckoner.Text.Integer

/-!
# Positions in a source text
-/

namespace Reckoner

/-- A place in a named text.  Lines count from one. -/
structure Position where
  source : String
  line : Nat
  column : Nat
deriving DecidableEq, Repr

/-- The place of what was not read from a text. -/
def Position.unknown : Position := ⟨"", 0, 0⟩

/-- A place as messages show it. -/
def Position.text (p : Position) : String :=
  p.source ++ ":" ++ Nat.repr p.line ++ ":" ++ Nat.repr p.column

end Reckoner
