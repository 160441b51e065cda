import Reckoner.Token

/-!
# Reading data from tokens

The reader keeps a stack of what is open: lists that wait for their closing parenthesis and quote
marks that wait for the item they quote.  Each token either leaves something open or completes an
expression.

A quoted item is data, so it loses its positions.  A quote mark at the end of the text quotes nil.
-/

namespace Reckoner

/-- Something that is open while reading. -/
inductive Frame where
  /-- A list with the items read so far, latest first. -/
  | opened (position : Position) (items : List Datum)
  | quoted

/-- What one token leads to. -/
inductive ReadStep where
  | expression (datum : Datum)
  | more (frames : List Frame)
  | failed (error : ReadError)

namespace Reader

/-- Quoted data. -/
def quote (datum : Datum) : Datum := .ofList [.symbol "quote", datum.erase]

/-- Put a complete item where it belongs: under the quote marks before it, then at the end of the
innermost open list. -/
def complete : List Frame → Datum → ReadStep
  | [], datum => .expression datum
  | .quoted :: frames, datum => complete frames (quote datum)
  | .opened position items :: frames, datum => .more (.opened position (datum :: items) :: frames)

/-- Read one token. -/
def step (frames : List Frame) : Token → ReadStep
  | .opening position => .more (.opened position [] :: frames)
  | .quoteMark => .more (.quoted :: frames)
  | .atom datum => complete frames datum
  | .closing =>
    match frames with
    | .opened position items :: outer => complete outer (.list (some position) items.reverse)
    | _ => .failed .unexpectedClose

/-- The innermost list that is still open. -/
def innermostOpen : List Frame → Option Position
  | [] => none
  | .opened position _ :: _ => some position
  | .quoted :: frames => innermostOpen frames

/-- The end of the text while something is open, or before anything. -/
def atEnd (frames : List Frame) : ReadStep :=
  match innermostOpen frames with
  | some position => .failed (.unclosedList position)
  | none => complete frames .nil

/-- Read one expression, and give the tokens after it. -/
def readFrom : List Frame → List Token → Except ReadError (Datum × List Token)
  | frames, [] =>
    match atEnd frames with
    | .expression datum => .ok (datum, [])
    | .more _ => .ok (.nil, [])
    | .failed error => .error error
  | frames, token :: rest =>
    match step frames token with
    | .expression datum => .ok (datum, rest)
    | .more frames => readFrom frames rest
    | .failed error => .error error

end Reader

/-- What a text holds: the expressions that can be read, in order, and the error after them. -/
structure Program where
  expressions : List Datum
  failure : Option ReadError

namespace Program

/-- The program of a text from which nothing could be read. -/
def failed (error : ReadError) : Program := ⟨[], some error⟩

/-- Put an expression in front. -/
def cons (datum : Datum) (program : Program) : Program :=
  { program with expressions := datum :: program.expressions }

/-- Read expressions to the end of the tokens. -/
def readFrom : List Frame → List Token → Program
  | [], [] => ⟨[], none⟩
  | frames, [] =>
    match Reader.atEnd frames with
    | .expression datum => ⟨[datum], none⟩
    | .more _ => ⟨[], none⟩
    | .failed error => failed error
  | frames, token :: rest =>
    match Reader.step frames token with
    | .expression datum => (readFrom [] rest).cons datum
    | .more frames => readFrom frames rest
    | .failed error => failed error

/-- The program of a list of tokens. -/
def ofTokens (tokens : List Token) : Program := readFrom [] tokens

end Program

/-- Read the first expression of a text; a text without any reads as nil. -/
def Datum.read (source text : String) : Except ReadError Datum := do
  let tokens ← Token.scan source text
  let (datum, _) ← Reader.readFrom [] tokens
  return datum

end Reckoner
