import RegisterMachine.Event
import RegisterMachine.Instruction
import RegisterMachine.Operand
import RegisterMachine.Program
import RegisterMachine.Stack

/-!
The machine. It walks a program by addresses. Outside of calls it passes over the functions; a call
pushes a frame and moves into a function's body, and reaching the function's last line pops it again.
A jump to a line outside the running function is put off until the outermost call returns. The machine
does nothing to the outside itself but hands out events.
-/

namespace RegisterMachine

structure Machine where
  program : Program
  bank : Bank
  stack : Stack Frame
  /-- The address of the next line. -/
  pc : Nat
  /-- The target of a jump that waits for the outermost call to return. -/
  detour : Option Nat
  /-- The file line that ran last. -/
  line : Option Nat
  running : Bool

namespace Machine

/-- How many calls can be active. -/
def maxDepth : Nat := 10000

def start (program : Program) : Machine where
  program := program
  bank := .initial
  stack := .empty maxDepth "Call stack overflow"
  pc := 1
  detour := none
  line := none
  running := true

/-- Calls a function. The call is noted even if the stack is full. -/
def enter (m : Machine) (region : Region) (callingLine : Nat) (parameters : List String)
    (returnTo : Option Nat) : Attempt Machine := do
  Attempt.note (.called region.name callingLine)
  let stack ← m.stack.push ⟨region.name, callingLine, parameters, region.close, returnTo⟩
  return { m with stack := stack, pc := region.declaration + 1 }

/-- A machine that runs one function only, as if the program were a call of it. -/
def startAt (program : Program) (function : String) : Attempt Machine :=
  match program.function? function with
  | none => Attempt.fail (.noFunction function)
  | some region => (start program).enter region 0 [] none

/-- What a step leads to. -/
structure Outcome where
  machine : Machine
  events : List Event
  notes : List Note

/-- Ends the run. -/
def halt (m : Machine) : Machine := { m with running := false }

/-- Ends the call on top. A jump that was put off is taken when no other call is active. -/
def leave (m : Machine) : Outcome :=
  match m.stack.pop? with
  | none => ⟨m.halt, [.stopped], []⟩
  | some (frame, stack) =>
    let (target, detour) := if stack.isEmpty then (m.detour, none) else (none, m.detour)
    let m := { m with stack := stack, detour := detour }
    match frame.returnTo with
    | none => ⟨m.halt, [.stopped], [.returned frame.function]⟩
    | some address => ⟨{ m with pc := target.getD address }, [], [.returned frame.function]⟩

/-- The address of a label to jump to. -/
def target (m : Machine) (label : String) : Attempt Nat :=
  match m.program.label? label with
  | none => Attempt.fail (.noLabel label)
  | some address => do
    Attempt.note (.jumped label address)
    return address

/-- Whether a jump leads to a line of the code that is running. -/
def isLocal (m : Machine) (address : Nat) : Bool :=
  match m.stack.top?, m.program.owner? address with
  | none, _ => true
  | some frame, some region => region.close == frame.close
  | some _, none => false

/-- Goes to an address, now or when the outermost call returns. -/
def jump (m : Machine) (address : Nat) : Attempt Machine :=
  if m.isLocal address then pure { m with pc := address }
  else do
    Attempt.note (.jumpDeferred address)
    return { m with detour := some address }

/-- The function of a name. -/
def function (m : Machine) (name : String) : Except Fault Region :=
  match m.program.function? name with
  | none => .error (.noFunction name)
  | some region => .ok region

/-- The active calls, the innermost first, with the lines they were made from. -/
def trace (m : Machine) : String :=
  m.stack.items.foldl
    (fun s frame => s ++ "  " ++ frame.function ++ ":" ++ toString frame.callingLine ++ "\n")
    "Stack Trace\n"

/-- The whole milliseconds in a duration, from 0 to the greatest number of 64 bits. -/
def milliseconds (x : Float) : Nat := if x < 0 then 0 else x.toUInt64.toNat

/-- The events of an exit with a value. A number from 0 to 255 is the status; any other value is
shown, and the status is 0. -/
def exitEvents (value : Value) : List Event :=
  let shown : List Event := [.print "Program exited. Result:\n", .inspect (.value value), .exit 0]
  match value with
  | .number x => if 0 ≤ x ∧ x ≤ 255 then [.exit x.toUInt64.toNat] else shown
  | _ => shown

/-- Carries out an instruction of a line. -/
def perform (m : Machine) (line : Line) : Instruction → Attempt (Machine × List Event)
  | .move target source => do
    let _ ← m.bank.get target
    let value ← Operand.resolve source m.bank
    let bank ← m.bank.set target value
    return ({ m with bank := bank }, [])
  | .create register => do
    let bank ← m.bank.create register
    return ({ m with bank := bank }, [])
  | .erase register => return ({ m with bank := m.bank.erase register }, [])
  | .compare left right target => do
    let x ← Operand.resolve left m.bank
    let y ← Operand.resolve right m.bank
    let _ ← m.bank.get target
    let bank ← m.bank.set target (.boolean (x.same y))
    return ({ m with bank := bank }, [])
  | .compute op left right target => do
    let x ← Operand.resolve left m.bank
    let y ← Operand.resolve right m.bank
    let _ ← m.bank.get target
    let value ← op.apply x y
    let bank ← m.bank.set target value
    return ({ m with bank := bank }, [])
  | .count direction register => do
    let current ← m.bank.get register
    let value ← direction.apply register current
    let bank ← m.bank.set register value
    return ({ m with bank := bank }, [])
  | .reverse register => do
    let current ← m.bank.get register
    let bank ← m.bank.set register current.reverse
    return ({ m with bank := bank }, [])
  | .print source newline => do
    let value ← Operand.resolve source m.bank
    return (m, [.print (if newline then value.text ++ "\n" else value.text)])
  | .dumpBank => return (m, [.inspect (.registers m.bank.registers)])
  | .dumpValue source => do
    let value ← Operand.resolve source m.bank
    return (m, [.inspect (.value value)])
  | .dumpFrames => return (m, [.inspect (.frames m.stack.toList)])
  | .traceFrames => return (m, [.print m.trace])
  | .mark => return (m, [])
  | .jump label => do
    let address ← m.target label
    let m ← m.jump address
    return (m, [])
  | .jumpIf label register => do
    let address ← m.target label
    let condition ← m.bank.get register
    if condition.isTruthy then
      let m ← m.jump address
      return (m, [])
    else return (m, [])
  | .call name arguments => do
    let region ← m.function name
    let m ← m.enter region line.number arguments (some m.pc)
    return (m, [])
  | .launch name => do
    let region ← m.function name
    Attempt.note (.launched region.name line.number)
    return (m, [.launch region.name line.number])
  | .sleep source => do
    let value ← Operand.resolve source m.bank
    match value.toNumber? with
    | none => Attempt.fail (.notDuration value.text)
    | some x => return (m, [.sleep (milliseconds x)])
  | .exit none => return (m.halt, [.exit 0])
  | .exit (some source) => do
    let value ← Operand.resolve source m.bank
    return (m.halt, exitEvents value)

/-- Decodes a line and carries it out. -/
def attempt (m : Machine) (line : Line) : Attempt (Machine × List Event) :=
  match Instruction.decode line with
  | .error fault => Attempt.fail fault
  | .ok instruction => m.perform line instruction

/-- Runs a line. Its warnings come before its own event; a failure ends the run and changes nothing
else. -/
def dispatch (m : Machine) (line : Line) : Outcome :=
  let ⟨notes, warnings, result⟩ := m.attempt line
  let warned := warnings.map fun fault => Event.warning (fault.report m.line)
  match result with
  | .ok (next, events) => ⟨next, warned ++ events, notes⟩
  | .error fault => ⟨m.halt, warned ++ [.error (fault.report m.line)], notes⟩

/-- Runs the line at the program counter, or ends the run if there is none. -/
def fetch (m : Machine) : Outcome :=
  match m.program.line? m.pc with
  | none => ⟨m.halt, [.stopped], []⟩
  | some line => { m with pc := m.pc + 1, line := some line.number }.dispatch line

/-- One step: the return from a call, the way around a function, or a line. -/
def step (m : Machine) : Outcome :=
  match m.stack.top? with
  | some frame => if frame.close ≤ m.pc then m.leave else m.fetch
  | none =>
    match m.program.owner? m.pc with
    | some region => ⟨{ m with pc := region.close + 1 }, [], []⟩
    | none => m.fetch

end Machine

end RegisterMachine
