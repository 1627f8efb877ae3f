import RegisterMachine.Arithmetic
import RegisterMachine.Line
import RegisterMachine.Opcode

/-!
Instructions: lines with their operands in place. Decoding a line checks the command and then the
number of operands, so an instruction always has the operands that it needs.
-/

namespace RegisterMachine

inductive Instruction where
  | move (target source : String)
  | create (register : String)
  | erase (register : String)
  | compare (left right target : String)
  | compute (op : Arithmetic) (left right target : String)
  | count (direction : Count) (register : String)
  | reverse (register : String)
  | print (source : String) (newline : Bool)
  | dumpBank
  | dumpValue (source : String)
  | dumpFrames
  | traceFrames
  /-- A label or a function's first or last line, which does nothing when it is reached. -/
  | mark
  | jump (label : String)
  | jumpIf (label register : String)
  | call (function : String) (arguments : List String)
  | launch (function : String)
  | sleep (source : String)
  | exit (source : Option String)
  deriving DecidableEq, Repr

namespace Instruction

/-- The instruction of an opcode and its operands, if their number is right. Printing takes the text
after the command as one operand. -/
def ofOpcode? (line : Line) : Opcode → List String → Option Instruction
  | .mov, [target, source] => some (move target source)
  | .newReg, [register] => some (create register)
  | .delReg, [register] => some (erase register)
  | .cmp, [left, right, target] => some (compare left right target)
  | .add, [left, right, target] => some (compute .add left right target)
  | .sub, [left, right, target] => some (compute .subtract left right target)
  | .mult, [left, right, target] => some (compute .multiply left right target)
  | .div, [left, right, target] => some (compute .divide left right target)
  | .pow, [left, right, target] => some (compute .power left right target)
  | .mod, [left, right, target] => some (compute .modulo left right target)
  | .inc, [register] => some (count .up register)
  | .dec, [register] => some (count .down register)
  | .rev, [register] => some (reverse register)
  | .print, _ :: _ => some (print line.remainder false)
  | .println, _ :: _ => some (print line.remainder true)
  | .printReg, [] => some dumpBank
  | .printRegVal, [source] => some (dumpValue source)
  | .printStack, [] => some dumpFrames
  | .printStackTrace, [] => some traceFrames
  | .lb, [_] => some mark
  | .jmp, [label] => some (jump label)
  | .jmpCond, [label, register] => some (jumpIf label register)
  | .function, [_] => some mark
  | .endFunction, [] => some mark
  | .call, function :: arguments => some (call function arguments)
  | .async, function :: _ => some (launch function)
  | .sleep, [source] => some (sleep source)
  | .exit, [] => some (exit none)
  | .exit, [source] => some (exit (some source))
  | _, _ => none

def decode (line : Line) : Except Fault Instruction :=
  match Opcode.ofCommand? line.command with
  | none => .error (.unknownCommand line.command)
  | some opcode =>
    match ofOpcode? line opcode line.operands with
    | some instruction => .ok instruction
    | none => .error (.wrongCount opcode.arity line.operands.length)

/-- An opcode has an instruction for exactly the numbers of operands that its arity admits. -/
theorem isSome_ofOpcode? (line : Line) (opcode : Opcode) (operands : List String) :
    (ofOpcode? line opcode operands).isSome = opcode.arity.admits operands.length := by
  cases opcode <;> rcases operands with _ | ⟨a, _ | ⟨b, _ | ⟨c, _ | ⟨d, rest⟩⟩⟩⟩ <;>
    simp [ofOpcode?, Opcode.arity, Arity.exactly, Arity.atLeast, Arity.admits]

end Instruction

end RegisterMachine
