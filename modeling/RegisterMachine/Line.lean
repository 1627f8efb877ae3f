import RegisterMachine.Words
import RegisterMachine.Text.Lines

/-!
Lines and listings: what is executable in a program text, with the numbers of the lines in the file.
-/

namespace RegisterMachine

/-- One executable line. -/
structure Line where
  /-- The number of the line in its file. -/
  number : Nat
  /-- What the line says, without comment and outer blanks. -/
  text : String
  command : String
  operands : List String
  deriving DecidableEq, Repr

namespace Line

/-- The executable line in a line of a file, unless it is blank or a comment. -/
def read? (number : Nat) (s : String) : Option Line :=
  match Words.stripComment s.toList with
  | none => none
  | some text =>
    match Words.split text with
    | [] => none
    | command :: operands =>
      some ⟨number, String.ofList text, String.ofList command, operands.map String.ofList⟩

/-- The text after the command, as written. -/
def remainder (l : Line) : String := String.ofList (Words.remainder l.text.toList)

end Line

/-- The executable lines of a file, in order. -/
abbrev Listing := List Line

namespace Listing

/-- The executable lines among lines that are numbered from `first` on. -/
def ofLines (first : Nat) : List (List Char) → Listing
  | [] => []
  | line :: rest =>
    match Line.read? first (String.ofList line) with
    | none => ofLines (first + 1) rest
    | some l => l :: ofLines (first + 1) rest

/-- The listing of a program text. Every line of the text counts, blank lines and comments too. -/
def ofSource (source : String) : Listing := ofLines 1 (Text.lines source.toList)

end Listing

end RegisterMachine
