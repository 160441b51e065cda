import Reckoner.Datum.Basic
import Reckoner.Number.Text

/-!
# Tokens

A text is cut into opening and closing parentheses, quote marks and atoms: numbers, quoted texts
and symbols.  The scanner is a fold over the characters, so scanning a text in two parts is the
same as scanning it at once from the state after the first part.

* A number starts with a digit or a minus sign and goes on with digits, points and exponent marks;
  a sign belongs to it directly after an exponent mark.  What cannot be read as a number is a
  symbol.
* A symbol ends at a blank or a parenthesis only.
* A comment starts with `/` and `*` where a symbol could start and ends at `*` and `/`.  After a
  star inside a comment, one character is looked at and consumed.
* Only an opening parenthesis keeps its position.
-/

namespace Reckoner

/-- What keeps a text from being read. -/
inductive ReadError where
  | unclosedText (position : Position)
  | unclosedList (position : Position)
  | unexpectedClose
deriving DecidableEq, Repr

/-- The wording of an error. -/
def ReadError.message : ReadError → String
  | .unclosedText position => position.text ++ ": expecting closing \""
  | .unclosedList position => position.text ++ ": expecting matching )"
  | .unexpectedClose => "unexpected )"

/-- A piece of a text. -/
inductive Token where
  | opening (position : Position)
  | closing
  | quoteMark
  | atom (datum : Datum)

namespace Token

/-- The value of the characters between the quotes of a text.  An escape that has no meaning stands
for itself. -/
def unescape : List Char → List Char
  | '\\' :: '"' :: rest => '"' :: unescape rest
  | '\\' :: '\\' :: rest => '\\' :: unescape rest
  | '\\' :: 'n' :: rest => '\n' :: unescape rest
  | '\\' :: 'r' :: rest => '\r' :: unescape rest
  | '\\' :: 't' :: rest => '\t' :: unescape rest
  | c :: rest => c :: unescape rest
  | [] => []

/-- The atom of characters that start like a number: an integer of 64 bits if it fits, a double if
there is a point or an exponent, a larger integer otherwise, and a symbol if none of these. -/
def numberAtom (chars : List Char) : Datum :=
  let symbol := Datum.symbol (String.ofList chars)
  let fractional := chars.any fun c => c == '.' || c == 'e' || c == 'E'
  match Text.readInteger chars with
  | some n => if FitsInt64 n then .number (.int64 (Int64.ofInt n)) else .number (.bigint n)
  | none =>
    if fractional then
      match Binary64.read chars with
      | .ok x => .number (.float64 x)
      | .error _ => symbol
    else symbol

/-- What the scanner is in the middle of.  Characters are kept latest first. -/
inductive Mode where
  | between
  | number (chars : List Char)
  | symbol (chars : List Char)
  | text (chars : List Char)
  /-- After a backslash in a text. -/
  | escape (chars : List Char)
  | comment
  /-- After a star in a comment. -/
  | commentStar
deriving DecidableEq

/-- The state of the scanner: where the last character was, what it is in the middle of, and the
tokens so far, latest first. -/
structure Scan where
  line : Nat := 1
  column : Nat := 0
  mode : Mode := .between
  tokens : List Token := []

/-- Whether a character belongs to a number after the characters so far. -/
def continuesNumber (chars : List Char) (c : Char) : Bool :=
  c == '.' || c == 'e' || c == 'E' || c.isDigit ||
    ((c == '-' || c == '+') && match chars with
      | last :: _ => last == 'e' || last == 'E'
      | [] => false)

/-- Whether a character is a blank between items. -/
def isSeparator (c : Char) : Bool := c == ' ' || c == '\r' || c == '\n' || c == '\t'

/-- Whether a character ends a symbol. -/
def endsSymbol (c : Char) : Bool := isSeparator c || c == ')' || c == '('

/-- The atom of a symbol. -/
def symbolAtom (chars : List Char) : Datum := .symbol (String.ofList chars)

namespace Scan

/-- Move over a character.  A newline counts as the first column of the line it starts. -/
def advance (s : Scan) (c : Char) : Scan :=
  if c = '\n' then { s with line := s.line + 1, column := 1 }
  else { s with column := s.column + 1 }

/-- Change what the scanner is in the middle of. -/
def become (s : Scan) (mode : Mode) : Scan := { s with mode }

/-- Add a token. -/
def emit (s : Scan) (token : Token) : Scan := { s with tokens := token :: s.tokens }

/-- Start a new item at a character. -/
def start (source : String) (s : Scan) (c : Char) : Scan :=
  if c = '(' then (s.emit (.opening ⟨source, s.line, s.column⟩)).become .between
  else if c = ')' then (s.emit .closing).become .between
  else if c = '\x27' then (s.emit .quoteMark).become .between
  else if c = '"' then s.become (.text [])
  else if c.isDigit || c == '-' then s.become (.number [c])
  else if isSeparator c then s.become .between
  else s.become (.symbol [c])

/-- Take in one character whose place is already counted. -/
def take (source : String) (s : Scan) (c : Char) : Scan :=
  match s.mode with
  | .between => s.start source c
  | .number chars =>
    if continuesNumber chars c then s.become (.number (c :: chars))
    else (s.emit (.atom (numberAtom chars.reverse))).start source c
  | .symbol chars =>
    if c = '*' ∧ chars = ['/'] then s.become .comment
    else if endsSymbol c then (s.emit (.atom (symbolAtom chars.reverse))).start source c
    else s.become (.symbol (c :: chars))
  | .text chars =>
    if c = '\\' then s.become (.escape (c :: chars))
    else if c = '"' then
      (s.emit (.atom (.text (String.ofList (unescape chars.reverse))))).become .between
    else s.become (.text (c :: chars))
  | .escape chars => s.become (.text (c :: chars))
  | .comment => if c = '*' then s.become .commentStar else s
  | .commentStar => if c = '/' then s.become .between else s.become .comment

/-- Scan one character. -/
def step (source : String) (s : Scan) (c : Char) : Scan := (s.advance c).take source c

/-- The tokens of a text that has been scanned to its end. -/
def finish (source : String) (s : Scan) : Except ReadError (List Token) :=
  match s.mode with
  | .number chars => .ok (s.emit (.atom (numberAtom chars.reverse))).tokens.reverse
  | .symbol chars => .ok (s.emit (.atom (symbolAtom chars.reverse))).tokens.reverse
  | .text _ => .error (.unclosedText ⟨source, s.line, s.column⟩)
  | .escape _ => .error (.unclosedText ⟨source, s.line, s.column⟩)
  | _ => .ok s.tokens.reverse

end Scan

/-- Cut a text into tokens. -/
def scan (source text : String) : Except ReadError (List Token) :=
  (text.toList.foldl (Scan.step source) {}).finish source

end Token

end Reckoner
