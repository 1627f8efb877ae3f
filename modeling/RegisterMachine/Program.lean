import RegisterMachine.Fault
import RegisterMachine.Line
import RegisterMachine.Note
import RegisterMachine.Opcode
import RegisterMachine.Table

/-!
Programs: the lines of a listing with the tables of its labels and functions. A line's address is its
place in the listing, counted from 1. Compiling reads the lines in order and blames the first one that
is malformed.
-/

namespace RegisterMachine

/-- The lines of a function, from the one that declares it to the one that closes it. -/
structure Region where
  name : String
  declaration : Nat
  close : Nat
  deriving DecidableEq, Repr

def Region.holds (r : Region) (address : Nat) : Bool := r.declaration ≤ address && address ≤ r.close

structure Program where
  lines : Array Line
  /-- The addresses of the labels, the latest first. -/
  labels : Table Nat
  /-- The functions, the latest first. -/
  regions : List Region
  deriving DecidableEq, Repr

namespace Program

def line? (p : Program) (address : Nat) : Option Line :=
  if address = 0 then none else p.lines[address - 1]?

/-- The address of a label. Of several with one name the latest counts. -/
def label? (p : Program) (name : String) : Option Nat := p.labels.find? name

/-- The function of a name. Of several with one name the latest counts. -/
def function? (p : Program) (name : String) : Option Region := p.regions.find? (·.name = name)

/-- The function that an address lies in. -/
def owner? (p : Program) (address : Nat) : Option Region := p.regions.find? (·.holds address)

/-- The lines strictly inside a function. -/
def body (p : Program) (r : Region) : List Line :=
  (p.lines.toList.drop r.declaration).take (r.close - 1 - r.declaration)

/-- A function whose closing line has not been read yet. -/
structure Opening where
  name : String
  declaration : Nat
  /-- The number of the declaring line in the file. -/
  line : Nat
  deriving DecidableEq, Repr

/-- The tables of the lines read so far. -/
structure Draft where
  opening : Option Opening
  labels : Table Nat
  regions : List Region
  deriving DecidableEq, Repr

namespace Draft

def empty : Draft := ⟨none, [], []⟩

/-- Opens a function. No other function may be open, and this is seen before the operands are. -/
def openFunction (d : Draft) (address : Nat) (line : Line) : Except Fault Draft :=
  match d.opening with
  | some opening => .error (.nestedFunction opening.name)
  | none =>
    match line.operands with
    | [name] => .ok { d with opening := some ⟨name, address, line.number⟩ }
    | operands => .error (.wrongCount Opcode.function.arity operands.length)

/-- Closes the open function. Without one the line means nothing. -/
def closeFunction (d : Draft) (address : Nat) (line : Line) : Draft × List Note :=
  match d.opening with
  | none => (d, [])
  | some opening =>
    let known := d.regions.any (·.name = opening.name)
    ({ d with
        opening := none
        regions := ⟨opening.name, opening.declaration, address⟩ :: d.regions },
      (if known then [.functionRedefined opening.name line.number] else []) ++
        [.functionRegistered opening.name opening.declaration address])

def addLabel (d : Draft) (address : Nat) (line : Line) : Except Fault (Draft × List Note) :=
  match line.operands with
  | [name] =>
    .ok ({ d with labels := (name, address) :: d.labels },
      .labelRegistered name address ::
        (if d.labels.contains name then [.labelRedefined name line.number] else []))
  | operands => .error (.wrongCount Opcode.lb.arity operands.length)

/-- Reads one more line. -/
def read (d : Draft) (address : Nat) (line : Line) : Except Fault (Draft × List Note) :=
  match Opcode.ofCommand? line.command with
  | some .function => (d.openFunction address line).map fun d => (d, [])
  | some .endFunction => .ok (d.closeFunction address line)
  | some .lb => d.addLabel address line
  | _ => .ok (d, [])

/-- Reads lines in order, the first of them at the given address, up to one that is malformed. -/
def readAll (d : Draft) (address : Nat) : List Line → List Note × Except Diagnostic Draft
  | [] => ([], .ok d)
  | line :: rest =>
    match d.read address line with
    | .error fault => ([], .error (fault.report (some line.number)))
    | .ok (d, notes) =>
      let (more, result) := readAll d (address + 1) rest
      (notes ++ more, result)

/-- The program of a draft in which no function is left open. -/
def finish (d : Draft) (listing : Listing) : Except Diagnostic Program :=
  match d.opening with
  | some opening => .error ((Fault.unclosedFunction opening.name).report (some opening.line))
  | none => .ok ⟨listing.toArray, d.labels, d.regions⟩

end Draft

/-- The program of a listing, or what is wrong with it, and what was noted on the way. -/
def compile (listing : Listing) : List Note × Except Diagnostic Program :=
  let (notes, result) := Draft.empty.readAll 1 listing
  (notes, result.bind fun draft => draft.finish listing)

end Program

end RegisterMachine
