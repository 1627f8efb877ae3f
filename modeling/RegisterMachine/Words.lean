import RegisterMachine.Text.Blank

/-!
The words of a line: its command and its operands. Blanks separate words, but an operand that opens a
quote or a brace goes on until the quote is closed or the braces balance, and is then the text that
it spans, blanks included. An operand that stays open ends with the last word of the line.
-/

namespace RegisterMachine.Words

open Text (isBlank trim)

/-- A run of characters without blanks and the blanks before it. -/
structure Piece where
  gap : List Char
  word : List Char
  deriving DecidableEq, Repr

/-- The pieces of a text in order. Blanks at the end belong to no piece. -/
def pieces : List Char → List Piece
  | [] => []
  | c :: rest =>
    match isBlank c, pieces rest with
    | true, [] => []
    | true, p :: ps => ⟨c :: p.gap, p.word⟩ :: ps
    | false, ⟨[], word⟩ :: ps => ⟨[], c :: word⟩ :: ps
    | false, ps => ⟨[], [c]⟩ :: ps

/-- How deep in braces and brackets a text has led, and whether a string is open in it. -/
structure Nesting where
  depth : Nat
  inString : Bool
  escaped : Bool
  deriving DecidableEq, Repr

namespace Nesting

def outside : Nesting := ⟨0, false, false⟩

/-- Inside a string only the quote that closes it counts, unless a backslash escapes it. A closing
bracket with none open is passed over. -/
def next (n : Nesting) (c : Char) : Nesting :=
  if n.inString then
    if n.escaped then { n with escaped := false }
    else if c = '\\' then { n with escaped := true }
    else if c = '"' then { n with inString := false }
    else n
  else if c = '"' then { n with inString := true }
  else if c = '\x7b' ∨ c = '[' then { n with depth := n.depth + 1 }
  else if c = '\x7d' ∨ c = ']' then { n with depth := n.depth - 1 }
  else n

def scan (n : Nesting) (cs : List Char) : Nesting := cs.foldl next n

def isBalanced (n : Nesting) : Bool := n.depth == 0 && !n.inString

end Nesting

/-- What an open operand waits for. -/
inductive Awaiting where
  | quote
  | balance (nesting : Nesting)
  deriving DecidableEq, Repr

namespace Awaiting

/-- What an operand that begins with a word waits for, if anything. -/
def opened : List Char → Option Awaiting
  | '"' :: rest => if rest.getLast? = some '"' then none else some .quote
  | '\x7b' :: rest =>
    let nesting := Nesting.outside.scan ('\x7b' :: rest)
    if nesting.isBalanced then none else some (.balance nesting)
  | _ => none

/-- What an open operand still waits for after a further word. -/
def after (word : List Char) : Awaiting → Option Awaiting
  | .quote => if word.getLast? = some '"' then none else some .quote
  | .balance nesting =>
    let nesting := nesting.scan word
    if nesting.isBalanced then none else some (.balance nesting)

end Awaiting

/-- The operands that pieces make up, given the text of an open operand, if there is one. -/
def group : Option (List Char × Awaiting) → List Piece → List (List Char)
  | none, [] => []
  | some (text, _), [] => [text]
  | none, p :: ps =>
    match Awaiting.opened p.word with
    | none => p.word :: group none ps
    | some awaiting => group (some (p.word, awaiting)) ps
  | some (text, awaiting), p :: ps =>
    let text := text ++ p.gap ++ p.word
    match awaiting.after p.word with
    | none => text :: group none ps
    | some awaiting => group (some (text, awaiting)) ps

/-- The words of a text: the command as it stands, then the operands. -/
def split (cs : List Char) : List (List Char) :=
  match pieces cs with
  | [] => []
  | p :: ps => p.word :: group none ps

/-- Everything after the first word, as written. -/
def remainder (cs : List Char) : List Char :=
  trim ((cs.dropWhile isBlank).dropWhile (!isBlank ·))

/-- What a line says without its comment and the blanks around it, or `none` if nothing is left. A
line that begins with a hash or a semicolon is a comment, and a semicolon begins one anywhere. -/
def stripComment (cs : List Char) : Option (List Char) :=
  match trim cs with
  | [] => none
  | c :: rest =>
    if c = '#' ∨ c = ';' then none
    else some (Text.trimEnd ((c :: rest).takeWhile (· ≠ ';')))

end RegisterMachine.Words
