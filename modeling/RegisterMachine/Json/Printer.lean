import RegisterMachine.Json.Basic
import RegisterMachine.Number.Layout

/-!
Writing JSON texts without spaces.
-/

namespace RegisterMachine.Json

/-- How a character is written inside a string. -/
def escaped (c : Char) : List Char :=
  if c = '"' then ['\\', '"']
  else if c = '\\' then ['\\', '\\']
  else if c = '\x08' then ['\\', 'b']
  else if c = '\x0c' then ['\\', 'f']
  else if c = '\n' then ['\\', 'n']
  else if c = '\r' then ['\\', 'r']
  else if c = '\t' then ['\\', 't']
  else if c.toNat < 0x20 then
    ['\\', 'u', '0', '0', Nat.digitChar (c.toNat / 16), Nat.digitChar (c.toNat % 16)]
  else [c]

def quoted (s : String) : String := String.ofList ('"' :: s.toList.flatMap escaped ++ ['"'])

/-- How a double is written: positionally from `10 ^ -5` to below `10 ^ 16`, with `.0` after a whole
number. -/
def doubles : Number.Layout := ⟨-5, 15, ".0", .even⟩

def numberText : JsonNumber → String
  | .integer n => toString n
  | .float x => doubles.text x

mutual

def text : Json → String
  | null => "null"
  | boolean b => if b then "true" else "false"
  | number n => numberText n
  | string s => quoted s
  | array items => "[" ++ ",".intercalate (itemTexts items) ++ "]"
  | object fields => "\x7b" ++ ",".intercalate (fieldTexts fields) ++ "\x7d"

def itemTexts : List Json → List String
  | [] => []
  | v :: rest => text v :: itemTexts rest

def fieldTexts : List (String × Json) → List String
  | [] => []
  | (key, v) :: rest => (quoted key ++ ":" ++ text v) :: fieldTexts rest

end

end RegisterMachine.Json
