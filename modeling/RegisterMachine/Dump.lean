import RegisterMachine.Value

/-!
Dumps: values laid out for reading in at most 72 columns. An array or object stands on one line if it
fits there; otherwise each entry starts on a line of its own.
-/

namespace RegisterMachine.Dump

/-- The widest line that an array or object may share. -/
def maxWidth : Nat := 72

inductive Style where
  | bold
  | yellow
  | green
  deriving DecidableEq, Repr

/-- The sequence that switches a style on. -/
def Style.start : Style → List Char
  | bold => "\x1b[1m".toList
  | yellow => "\x1b[33m".toList
  | green => "\x1b[32m".toList

/-- The sequence that switches all styles off. -/
def plainAgain : List Char := "\x1b[0m".toList

def paint (colors : Bool) (style : Style) (text : List Char) : List Char :=
  if colors then style.start ++ text ++ plainAgain else text

def escaped (c : Char) : List Char := if c = '\\' ∨ c = '\x27' then ['\\', c] else [c]

def quote (cs : List Char) : List Char := '\x27' :: cs.flatMap escaped ++ ['\x27']

def isKeyCharacter (c : Char) : Bool := c.isAlphanum || c = '_' || c = '$'

/-- Whether a key needs no quotes. -/
def isPlainKey : List Char → Bool
  | [] => false
  | c :: rest => !c.isDigit && (c :: rest).all isKeyCharacter

def key (cs : List Char) : List Char := if isPlainKey cs then cs else quote cs

mutual

/-- How wide a document is on one line. -/
def flatWidth : Json → Nat
  | .null => 4
  | .boolean b => if b then 4 else 5
  | .number n => (Number.text n.toDouble).length
  | .string s => (quote s.toList).length
  | .array [] => 2
  | .array (item :: rest) => 4 + flatWidth item + itemsWidth rest
  | .object [] => 2
  | .object ((name, item) :: rest) =>
    4 + ((key name.toList).length + 2 + flatWidth item) + fieldsWidth rest

/-- How much wider further items make an array. -/
def itemsWidth : List Json → Nat
  | [] => 0
  | item :: rest => 2 + flatWidth item + itemsWidth rest

/-- How much wider further fields make an object. -/
def fieldsWidth : List (String × Json) → Nat
  | [] => 0
  | (name, item) :: rest =>
    2 + ((key name.toList).length + 2 + flatWidth item) + fieldsWidth rest

end

def blanks (n : Nat) : List Char := List.replicate n ' '

/-- Entries between two brackets, given how wide they are on one line. -/
def enclose (opening closing : Char) (indent width : Nat) (entries : List (List Char)) : List Char :=
  if entries.isEmpty then [opening, closing]
  else if indent + width ≤ maxWidth then
    opening :: ' ' :: [',', ' '].intercalate entries ++ [' ', closing]
  else
    opening :: '\n' :: [',', '\n'].intercalate (entries.map (blanks (indent + 2) ++ ·)) ++
      '\n' :: blanks indent ++ [closing]

mutual

/-- A document laid out at an indentation. -/
def render (colors : Bool) (indent : Nat) : Json → List Char
  | .null => paint colors .bold "null".toList
  | .boolean b => paint colors .yellow (if b then "true" else "false").toList
  | .number n => paint colors .yellow (Number.text n.toDouble).toList
  | .string s => paint colors .green (quote s.toList)
  | .array items =>
    enclose '[' ']' indent (flatWidth (.array items)) (renderItems colors (indent + 2) items)
  | .object fields =>
    enclose '\x7b' '\x7d' indent (flatWidth (.object fields))
      (renderFields colors (indent + 2) fields)

def renderItems (colors : Bool) (indent : Nat) : List Json → List (List Char)
  | [] => []
  | item :: rest => render colors indent item :: renderItems colors indent rest

def renderFields (colors : Bool) (indent : Nat) : List (String × Json) → List (List Char)
  | [] => []
  | (name, item) :: rest =>
    (key name.toList ++ [':', ' '] ++ render colors indent item) :: renderFields colors indent rest

end

end RegisterMachine.Dump
