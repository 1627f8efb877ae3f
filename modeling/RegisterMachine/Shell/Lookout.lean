/-!
A lookout reads a stream character by character and notices the first moment at which what it has
read ends with an awaited text. An empty text is noticed before anything is read.
-/

namespace RegisterMachine

structure Lookout where
  /-- The awaited text. -/
  text : List Char
  /-- For each place where the text may have begun, the present one included, what is still missing
  of it. -/
  missing : List (List Char)
  deriving DecidableEq, Repr

namespace Lookout

def start (text : List Char) : Lookout := ⟨text, [text]⟩

/-- Whether what has been read ends with the text. -/
def isMet (l : Lookout) : Bool := l.missing.any List.isEmpty

/-- What is missing after a character, if it is the one that was missing first. -/
def after (c : Char) : List Char → Option (List Char)
  | [] => none
  | d :: rest => if c = d then some rest else none

def read (l : Lookout) (c : Char) : Lookout :=
  { l with missing := l.text :: l.missing.filterMap (after c) }

/-- Reads on until the text has been noticed. -/
def readAll (l : Lookout) : List Char → Lookout
  | [] => l
  | c :: rest => if l.isMet then l else (l.read c).readAll rest

end Lookout

end RegisterMachine
