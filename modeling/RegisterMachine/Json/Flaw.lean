/-!
What can be wrong with a JSON text, and where.
-/

namespace RegisterMachine.Json

inductive Flaw where
  | endInValue
  | endInString
  | endInList
  | endInObject
  | noValue
  | noIdent
  | noColon
  | noListEnd
  | noObjectEnd
  | trailingComma
  | trailingCharacters
  | keyNotString
  | badNumber
  | outOfRange
  | badEscape
  | controlCharacter
  | loneSurrogate
  | halfSurrogatePair
  | tooDeep
  deriving DecidableEq, Repr

def Flaw.message : Flaw → String
  | endInValue => "EOF while parsing a value"
  | endInString => "EOF while parsing a string"
  | endInList => "EOF while parsing a list"
  | endInObject => "EOF while parsing an object"
  | noValue => "expected value"
  | noIdent => "expected ident"
  | noColon => "expected `:`"
  | noListEnd => "expected `,` or `]`"
  | noObjectEnd => "expected `,` or `\x7d`"
  | trailingComma => "trailing comma"
  | trailingCharacters => "trailing characters"
  | keyNotString => "key must be a string"
  | badNumber => "invalid number"
  | outOfRange => "number out of range"
  | badEscape => "invalid escape"
  | controlCharacter => "control character (\\u0000-\\u001F) found while parsing a string"
  | loneSurrogate => "lone leading surrogate in hex escape"
  | halfSurrogatePair => "unexpected end of hex escape"
  | tooDeep => "recursion limit exceeded"

/-- How many bytes a text takes. -/
def byteCount (cs : List Char) : Nat := cs.foldl (fun n c => n + c.utf8Size) 0

/-- A flaw and how many bytes of the text come after the byte that shows it. -/
structure Failure where
  flaw : Flaw
  unread : Nat
  deriving DecidableEq, Repr

/-- A place in a text: its line, counted from 1, and the bytes read of that line. -/
structure Position where
  line : Nat
  column : Nat
  deriving DecidableEq, Repr

/-- The place after some bytes of a text. -/
def Position.advance (p : Position) : List Char → Nat → Position
  | [], _ => p
  | c :: rest, bytes =>
    if bytes = 0 then p
    else if c = '\n' then advance ⟨p.line + 1, 0⟩ rest (bytes - 1)
    else if bytes < c.utf8Size then { p with column := p.column + bytes }
    else advance { p with column := p.column + c.utf8Size } rest (bytes - c.utf8Size)

def Failure.position (f : Failure) (cs : List Char) : Position :=
  Position.advance ⟨1, 0⟩ cs (byteCount cs - f.unread)

/-- What is reported of a flaw in a text. -/
def Failure.message (f : Failure) (cs : List Char) : String :=
  let p := f.position cs
  f.flaw.message ++ s!" at line {p.line} column {p.column}"

end RegisterMachine.Json
