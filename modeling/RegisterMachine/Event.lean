import RegisterMachine.Diagnostic
import RegisterMachine.Dump

/-!
Events: everything that leaves the machine.
-/

namespace RegisterMachine

/-- One active call. -/
structure Frame where
  function : String
  /-- The file line of the call, 0 for the call that a run starts with. -/
  callingLine : Nat
  parameters : List String
  /-- The address that closes the function. -/
  close : Nat
  /-- Where the caller goes on, if there is one. -/
  returnTo : Option Nat
  deriving DecidableEq, Repr

def Frame.toJson (f : Frame) : Json :=
  .object
    [("name", .string f.function), ("callingLine", .number (.integer f.callingLine)),
      ("parameters", .array (f.parameters.map .string))]

/-- What an instruction lays open. -/
inductive Dump where
  | value (v : Value)
  | registers (bank : Table Value)
  /-- The active calls, the outermost first. -/
  | frames (calls : List Frame)

namespace Dump

def toJson : Dump → Json
  | value v => v.toJson
  | registers bank => .object (bank.map fun (name, v) => (name, v.toJson))
  | frames calls => .array (calls.map Frame.toJson)

def text (d : Dump) (colors : Bool) : String := String.ofList (render colors 0 d.toJson)

end Dump

inductive Event where
  /-- The program ran off its end, or the function that it started with returned. -/
  | stopped
  /-- The budget of steps is used up. -/
  | running
  | print (text : String)
  | inspect (dump : Dump)
  /-- A problem after which the program goes on. -/
  | warning (diagnostic : Diagnostic)
  /-- A problem that ends the program. -/
  | error (diagnostic : Diagnostic)
  /-- A function is to run on its own. -/
  | launch (function : String) (line : Nat)
  | sleep (milliseconds : Nat)
  | exit (status : Nat)

end RegisterMachine
