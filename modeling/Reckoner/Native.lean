/-!
# Functions that are not written in the language

A native function is a builtin, a loader of files that remembers the folder it belongs to, or a
function of the embedding program.  The catalogue of declared functions knows a native function by
its `code`: what a function remembers does not tell it apart from another, so two loaders with
different folders count as one, and so do any two functions of the embedding program of one sort.
The loaders that a script gets are not those of the shell, which alone are declared.
-/

namespace Reckoner

/-- The functions that come with the interpreter. -/
inductive Builtin where
  | isNumber
  | numericKind
  | add
  | subtract
  | multiply
  | divide
  | equal
  | less
  | greater
  | lessEqual
  | greaterEqual
  | negate
  | square
  | squareRoot
  | toInt32
  | toInt64
  | toBigint
  | toFloat
  | toDecimal
  | help
  | list
  | not
  | error
  | settings
  | print
  | environment
deriving DecidableEq, Repr

/-- Whom a loader of files was made for. -/
inductive LoaderOwner where
  | shell
  | script
deriving DecidableEq, Repr

/-- A function that is not written in the language. -/
inductive Native where
  | builtin (b : Builtin)
  /-- Loads a file, named relative to a folder. -/
  | importFile (owner : LoaderOwner) (folder : String)
  /-- Loads a file, named relative to a folder, now and whenever it changes. -/
  | watchFile (owner : LoaderOwner) (folder : String)
  /-- A function of the embedding program that gives back its arguments. -/
  | echo
  /-- A function of the embedding program that puts its name before its arguments. -/
  | labelled (name : String)
deriving DecidableEq, Repr

/-- What tells native functions apart for the catalogue. -/
inductive Native.Code where
  | builtin (b : Builtin)
  | importFile (owner : LoaderOwner)
  | watchFile (owner : LoaderOwner)
  | echo
  | labelled
deriving DecidableEq, Repr

/-- The code that a native function runs. -/
def Native.code : Native → Native.Code
  | .builtin b => .builtin b
  | .importFile owner _ => .importFile owner
  | .watchFile owner _ => .watchFile owner
  | .echo => .echo
  | .labelled _ => .labelled

end Reckoner
