import Reckoner.Native
import Reckoner.TypeExpr

/-!
# The catalogue of declared functions

A declaration says what a function is for, how many arguments it takes, of which types, and what it
returns.  The catalogue keeps the declarations by name, by the code of the function, and a list of
headings and names in the order in which they were declared.  Declaring a name again replaces what
is known under that name; the order list keeps both entries.
-/

namespace Reckoner

/-- A parameter of a declared function. -/
structure Parameter where
  name : String
  type : TypeExpr
  description : String

/-- What is known about a function. -/
structure Declaration where
  name : String
  description : String
  least : Int
  most : Int
  parameters : List Parameter
  returns : TypeExpr
  function : Option Native

/-- The required type of the argument at an index from zero.  Further arguments take the type of the
last parameter. -/
def Declaration.argumentType (d : Declaration) (index : Nat) : TypeExpr :=
  match d.parameters[index]? with
  | some parameter => parameter.type
  | none =>
    match d.parameters.getLast? with
    | some parameter => parameter.type
    | none => .any

/-- All declarations. -/
structure Catalogue where
  /-- Headings, which start with a hash mark, and names, in order. -/
  entries : List String := []
  byName : List (String × Declaration) := []
  byCode : List (Native.Code × Declaration) := []

namespace Catalogue

/-- Start a chapter. -/
def addTitle (c : Catalogue) (title : String) : Catalogue :=
  { c with entries := c.entries ++ ["#" ++ title] }

/-- Add a declaration. -/
def add (c : Catalogue) (d : Declaration) : Catalogue where
  entries := c.entries ++ [d.name]
  byName := (d.name, d) :: c.byName
  byCode := match d.function with
    | some f => (f.code, d) :: c.byCode
    | none => c.byCode

/-- The declaration of a name. -/
def find? (c : Catalogue) (name : String) : Option Declaration := c.byName.lookup name

/-- The declaration of a native function. -/
def findNative? (c : Catalogue) (f : Native) : Option Declaration := c.byCode.lookup f.code

/-- The title of an entry that is a heading. -/
def heading? (entry : String) : Option String :=
  match entry.toList with
  | '#' :: title => some (String.ofList title)
  | _ => none

end Catalogue

end Reckoner
