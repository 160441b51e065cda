import Reckoner.Catalogue.Basic

/-!
# The functions that come with the interpreter
-/

namespace Reckoner.Catalogue

/-- Declare a builtin. -/
def declareBuiltin (c : Catalogue) (b : Builtin) (name description : String)
    (least most : Int) (parameters : List (String × String × String)) (returns : String) :
    Catalogue :=
  c.add
    { name, description, least, most
      parameters := parameters.map fun (name, type, description) =>
        ⟨name, TypeExpr.ofText type, description⟩
      returns := TypeExpr.ofText returns
      function := some (.builtin b) }

/-- A function of one number. -/
def declareUnary (c : Catalogue) (b : Builtin) (name description returns : String) : Catalogue :=
  c.declareBuiltin b name description 1 1 [("value", "number", "value")] returns

/-- A function of two or more numbers. -/
def declareVariadic (c : Catalogue) (b : Builtin) (name description returns : String) : Catalogue :=
  c.declareBuiltin b name description 2 1000 [("value...", "number", "values")] returns

/-- A constructor of a kind of numbers. -/
def declareKind (c : Catalogue) (b : Builtin) (name description returns : String) : Catalogue :=
  c.declareBuiltin b name description 1 1 [("value", "number|string", "value")] returns

/-- Arithmetic and comparison. -/
def declareArithmetic (c : Catalogue) : Catalogue :=
  (c.addTitle "Arithmetic")
    |>.declareBuiltin .isNumber "number?" "tells if the value is a number"
        1 1 [("value", "any", "value")] "bool"
    |>.declareUnary .numericKind "numeric-kind"
        "returns the representation of a number: int32, int64, float64, bigint or decimal" "string"
    |>.declareBuiltin .add "+"
        "adds two or more numbers; mixed kinds are promoted to the narrowest kind holding both"
        2 1000 [("value...", "number", "values to add")] "number"
    |>.declareBuiltin .subtract "-"
        "subtracts two or more numbers from the first one; with one argument it negates"
        1 1000 [("value...", "number", "values")] "number"
    |>.declareVariadic .multiply "*" "multiplies two or more numbers" "number"
    |>.declareVariadic .divide "/"
        ("divides the first number by the others; integers truncate, decimals round half up to " ++
          "16 digits, floats follow IEEE 754")
        "number"
    |>.declareVariadic .equal "="
        "compares numbers by value across kinds, (= 2 2.0 (decimal \"2.00\")) is true" "bool"
    |>.declareVariadic .less "<" "tells if the numbers are strictly ascending" "bool"
    |>.declareVariadic .greater ">" "tells if the numbers are strictly descending" "bool"
    |>.declareVariadic .lessEqual "<=" "tells if the numbers are ascending" "bool"
    |>.declareVariadic .greaterEqual ">=" "tells if the numbers are descending" "bool"
    |>.declareUnary .negate "neg" "negates a number, keeping its kind" "number"
    |>.declareUnary .square "square" "multiplies a number with itself" "number"
    |>.declareUnary .squareRoot "sqrt"
        ("returns the square root of a number; bigints and decimals give a decimal of float64 " ++
          "precision")
        "number"

/-- The constructors of the kinds of numbers. -/
def declareKinds (c : Catalogue) : Catalogue :=
  (c.addTitle "Number kinds")
    |>.declareKind .toInt32 "int32" "converts a number or string to a 32 bit integer" "int"
    |>.declareKind .toInt64 "int64" "converts a number or string to a 64 bit integer" "int"
    |>.declareKind .toBigint "bigint"
        "converts a number or string to an arbitrary precision integer" "int"
    |>.declareKind .toFloat "float" "converts a number or string to a 64 bit float" "number"
    |>.declareKind .toDecimal "decimal"
        ("converts a number or string to an arbitrary precision decimal; (decimal \"2.50\") " ++
          "keeps its scale, floats convert with their exact binary value")
        "number"

/-- Help, lists, truth values, errors and settings. -/
def declareCore (c : Catalogue) : Catalogue :=
  (c.addTitle "Core")
    |>.declareBuiltin .help "help" "Lists all functions or prints help for a specific function"
        0 1 [("topic", "string", "function to get help for")] "nil"
    |>.declareBuiltin .list "list" "returns a list containing the parameters as elements"
        0 10000 [("value...", "any", "value for the list")] "list"
    |>.declareBuiltin .not "not" "negates the boolean value"
        1 1 [("value", "any", "value to negate")] "bool"
    |>.declareBuiltin .error "error" "raises an error with the given message"
        1 1 [("message", "any", "error message")] "nil"
    |>.declareBuiltin .settings "settings" "reads or changes an interpreter setting"
        0 2 [("key", "string", "name of the setting"), ("value", "any", "new value")] "any"

/-- The catalogue of an interpreter without access to the outside. -/
def standard : Catalogue :=
  ({} : Catalogue).declareArithmetic.declareKinds.declareCore

/-- Declare a loader of files. -/
def declareLoader (c : Catalogue) (f : Native) (name description : String) (most : Int)
    (parameters : List (String × String × String)) (returns : String) : Catalogue :=
  c.add
    { name, description, least := 1, most
      parameters := parameters.map fun (name, type, description) =>
        ⟨name, TypeExpr.ofText type, description⟩
      returns := TypeExpr.ofText returns
      function := some f }

/-- The functions that reach outside, with loaders that belong to a folder. -/
def declareShell (c : Catalogue) (folder : String) : Catalogue :=
  (c.addTitle "IO")
    |>.declareBuiltin .print "print" "Prints values to stdout (only in IO environment)"
        1 1000 [("value...", "any", "values to print")] "bool"
    |>.declareBuiltin .environment "env" "returns the content of a environment variable"
        1 2 [("var", "string", "envvar"),
          ("default", "string", "default if the env is not found")] "string"
    |>.declareLoader (.importFile .shell folder) "import"
        "Imports a .scm file into current namespace" 1
        [("filename", "string", "filename relative to folder of source file")] "any"
    |>.declareLoader (.watchFile .shell folder) "watch"
        ("Loads a file and evaluates it or hands its content to the callback. Whenever the file " ++
          "changes on disk, it is loaded again.")
        2 [("filename", "string", "filename relative to folder of source file"),
          ("updatehandler", "func", "handler that receives the file content func(content)")] "bool"

end Reckoner.Catalogue
