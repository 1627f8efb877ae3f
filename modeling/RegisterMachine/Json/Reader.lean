import RegisterMachine.Json.Number

/-!
Reading JSON texts. The first character that rules a text out decides what is wrong with it. At most
127 arrays and objects may be open at a time.
-/

namespace RegisterMachine.Json

def isSpace (c : Char) : Bool := c = ' ' || c = '\n' || c = '\t' || c = '\r'

def skipSpace (cs : List Char) : List Char := cs.dropWhile isSpace

/-- Reads the given letters. -/
def readLetters : List Char → List Char → Reading Unit
  | [], cs => .ok ((), cs)
  | _ :: _, [] => refuseEnd .endInValue
  | letter :: letters, c :: cs =>
    if c = letter then readLetters letters cs else refuse .noIdent (c :: cs)

def hexValue? (c : Char) : Option Nat :=
  if c.isDigit then some (c.toNat - '0'.toNat)
  else if 'a' ≤ c ∧ c ≤ 'f' then some (c.toNat - 'a'.toNat + 10)
  else if 'A' ≤ c ∧ c ≤ 'F' then some (c.toNat - 'A'.toNat + 10)
  else none

def hexNumber? : List Char → Option Nat
  | [a, b, c, d] => do
    return 4096 * (← hexValue? a) + 256 * (← hexValue? b) + 16 * (← hexValue? c) + (← hexValue? d)
  | _ => none

/-- Reads four hexadecimal digits. Without four more bytes the string has no end; with them a flaw is
only seen at the fourth. -/
def readHex (cs : List Char) : Reading Nat :=
  if byteCount cs < 4 then refuseEnd .endInString
  else
    match hexNumber? (cs.take 4) with
    | some n => .ok (n, cs.drop 4)
    | none => .error ⟨.badEscape, byteCount cs - 4⟩

def isLeading (n : Nat) : Bool := 0xD800 ≤ n && n ≤ 0xDBFF

def isTrailing (n : Nat) : Bool := 0xDC00 ≤ n && n ≤ 0xDFFF

/-- The character of a pair of surrogates. -/
def joinSurrogates (leading trailing : Nat) : Char :=
  Char.ofNat (0x10000 + (leading - 0xD800) * 0x400 + (trailing - 0xDC00))

/-- Reads the rest of a hexadecimal escape. A leading surrogate needs a trailing one after it. -/
def readUnicode (cs : List Char) : Reading Char :=
  match readHex cs with
  | .error e => .error e
  | .ok (n, cs) =>
    if isTrailing n then .error ⟨.loneSurrogate, byteCount cs⟩
    else if !isLeading n then .ok (Char.ofNat n, cs)
    else
      match cs with
      | [] => refuseEnd .endInString
      | ['\\'] => refuseEnd .endInString
      | '\\' :: 'u' :: cs =>
        match readHex cs with
        | .error e => .error e
        | .ok (m, cs) =>
          if isTrailing m then .ok (joinSurrogates n m, cs)
          else .error ⟨.loneSurrogate, byteCount cs⟩
      | '\\' :: cs => refuse .halfSurrogatePair cs
      | cs => refuse .halfSurrogatePair cs

/-- Reads an escape after its backslash. -/
def readEscape : List Char → Reading Char
  | [] => refuseEnd .endInString
  | '"' :: cs => .ok ('"', cs)
  | '\\' :: cs => .ok ('\\', cs)
  | '/' :: cs => .ok ('/', cs)
  | 'b' :: cs => .ok ('\x08', cs)
  | 'f' :: cs => .ok ('\x0c', cs)
  | 'n' :: cs => .ok ('\n', cs)
  | 'r' :: cs => .ok ('\r', cs)
  | 't' :: cs => .ok ('\t', cs)
  | 'u' :: cs => readUnicode cs
  | cs => refuse .badEscape cs

/-- Reads a string after its opening quote, given the characters read before, latest first. The first
argument bounds the number of characters. -/
def readCharacters : Nat → List Char → List Char → Reading String
  | 0, _, _ => refuseEnd .endInString
  | _ + 1, _, [] => refuseEnd .endInString
  | _ + 1, seen, '"' :: cs => .ok (String.ofList seen.reverse, cs)
  | bound + 1, seen, '\\' :: cs =>
    match readEscape cs with
    | .error e => .error e
    | .ok (c, cs) => readCharacters bound (c :: seen) cs
  | bound + 1, seen, c :: cs =>
    if c.toNat < 0x20 then refuse .controlCharacter (c :: cs)
    else readCharacters bound (c :: seen) cs

/-- Reads a string after its opening quote. -/
def readString (cs : List Char) : Reading String := readCharacters (cs.length + 1) [] cs

/-- Reads a value that is neither an array nor an object. -/
def readScalar : List Char → Reading Json
  | [] => refuseEnd .endInValue
  | 'n' :: cs => (readLetters ['u', 'l', 'l'] cs).map fun (_, cs) => (.null, cs)
  | 't' :: cs => (readLetters ['r', 'u', 'e'] cs).map fun (_, cs) => (.boolean true, cs)
  | 'f' :: cs => (readLetters ['a', 'l', 's', 'e'] cs).map fun (_, cs) => (.boolean false, cs)
  | '"' :: cs => (readString cs).map fun (s, cs) => (.string s, cs)
  | '-' :: cs => (readNumber true cs).map fun (n, cs) => (.number n, cs)
  | c :: cs =>
    if c.isDigit then (readNumber false (c :: cs)).map fun (n, cs) => (.number n, cs)
    else refuse .noValue (c :: cs)

/-- Reads the items of an array after its first, given those read before, latest first. The first
argument bounds their number. -/
def readItems (item : List Char → Reading Json) :
    Nat → List Json → List Char → Reading (List Json)
  | 0, _, _ => refuseEnd .endInList
  | bound + 1, seen, cs =>
    match skipSpace cs with
    | [] => refuseEnd .endInList
    | ']' :: cs => .ok (seen.reverse, cs)
    | ',' :: cs =>
      match skipSpace cs with
      | [] => refuseEnd .endInValue
      | ']' :: cs => refuse .trailingComma (']' :: cs)
      | cs =>
        match item cs with
        | .error e => .error e
        | .ok (v, cs) => readItems item bound (v :: seen) cs
    | cs => refuse .noListEnd cs

/-- Reads an array after its opening bracket. -/
def readArray (item : List Char → Reading Json) (cs : List Char) : Reading (List Json) :=
  match skipSpace cs with
  | [] => refuseEnd .endInList
  | ']' :: cs => .ok ([], cs)
  | cs =>
    match item cs with
    | .error e => .error e
    | .ok (v, cs) => readItems item (cs.length + 1) [v] cs

/-- Reads a key after its opening quote, the colon and the value. -/
def readField (item : List Char → Reading Json) (cs : List Char) : Reading (String × Json) :=
  match readString cs with
  | .error e => .error e
  | .ok (key, cs) =>
    match skipSpace cs with
    | [] => refuseEnd .endInObject
    | ':' :: cs => (item cs).map fun (v, cs) => ((key, v), cs)
    | cs => refuse .noColon cs

/-- Reads the fields of an object after its first, given those read before. A key that comes again
keeps its place and takes the new value. The first argument bounds the number of fields. -/
def readFields (item : List Char → Reading Json) :
    Nat → Table Json → List Char → Reading (Table Json)
  | 0, _, _ => refuseEnd .endInObject
  | bound + 1, seen, cs =>
    match skipSpace cs with
    | [] => refuseEnd .endInObject
    | '\x7d' :: cs => .ok (seen, cs)
    | ',' :: cs =>
      match skipSpace cs with
      | [] => refuseEnd .endInValue
      | '\x7d' :: cs => refuse .trailingComma ('\x7d' :: cs)
      | '"' :: cs =>
        match readField item cs with
        | .error e => .error e
        | .ok ((key, v), cs) => readFields item bound (seen.put key v) cs
      | cs => refuse .keyNotString cs
    | cs => refuse .noObjectEnd cs

/-- Reads an object after its opening brace. -/
def readObject (item : List Char → Reading Json) (cs : List Char) : Reading (Table Json) :=
  match skipSpace cs with
  | [] => refuseEnd .endInObject
  | '\x7d' :: cs => .ok ([], cs)
  | '"' :: cs =>
    match readField item cs with
    | .error e => .error e
    | .ok ((key, v), cs) => readFields item (cs.length + 1) [(key, v)] cs
  | cs => refuse .keyNotString cs

/-- Reads a value in which at most the given number of arrays and objects are open at a time. -/
def readValue : Nat → List Char → Reading Json
  | 0, cs =>
    match skipSpace cs with
    | '[' :: cs => refuse .tooDeep ('[' :: cs)
    | '\x7b' :: cs => refuse .tooDeep ('\x7b' :: cs)
    | cs => readScalar cs
  | depth + 1, cs =>
    match skipSpace cs with
    | '[' :: cs => (readArray (readValue depth) cs).map fun (items, cs) => (.array items, cs)
    | '\x7b' :: cs => (readObject (readValue depth) cs).map fun (fields, cs) => (.object fields, cs)
    | cs => readScalar cs

/-- Reads a text that holds one document and nothing else. -/
def parse (cs : List Char) : Except Failure Json :=
  match readValue 127 cs with
  | .error e => .error e
  | .ok (v, cs) =>
    match skipSpace cs with
    | [] => .ok v
    | cs => refuse .trailingCharacters cs

end RegisterMachine.Json
