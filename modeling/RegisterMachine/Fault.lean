import RegisterMachine.Arity
import RegisterMachine.Diagnostic

/-!
Faults: the causes of diagnostics. Each cause has one kind and one message.
-/

namespace RegisterMachine

inductive Fault where
  | wrongCount (arity : Arity) (count : Nat)
  | unknownCommand (command : String)
  | noRegister (name : String) (existing : List String)
  | noSource (source : String)
  | noSubitem (segment parent source : String)
  | nullSource (source : String)
  | noLabel (label : String)
  | noFunction (function : String)
  | numericName
  | symbolicName
  | notNumbers (left right : String)
  | notCountable (command register : String)
  | notDuration (value : String)
  | divisionByZero
  | badJson (reason source : String)
  | nestedFunction (enclosing : String)
  | unclosedFunction (function : String)
  | stackFull (notice : String)
  | interrupted
  | unreadable (file reason : String)
  | notStarted (function reason : String)
  deriving DecidableEq, Repr

namespace Fault

def kind : Fault → Kind
  | wrongCount .. => .argumentCount
  | unknownCommand .. => .unknownInstruction
  | noRegister .. => .undefinedRegister
  | noSource .. => .undefinedRegister
  | noSubitem .. => .undefinedSubitem
  | nullSource .. => .nullSource
  | noLabel .. => .undefinedLabel
  | noFunction .. => .undefinedFunction
  | numericName => .invalidRegisterName
  | symbolicName => .invalidRegisterName
  | notNumbers .. => .typeMismatch
  | notCountable .. => .typeMismatch
  | notDuration .. => .typeMismatch
  | divisionByZero => .divisionByZero
  | badJson .. => .malformedJson
  | nestedFunction .. => .nestedFunction
  | unclosedFunction .. => .unclosedFunction
  | stackFull .. => .stackOverflow
  | interrupted => .interrupted
  | unreadable .. => .io
  | notStarted .. => .io

def message : Fault → String
  | wrongCount arity count => arity.refusal count
  | unknownCommand command => "Unknown instruction/command " ++ command
  | noRegister name existing =>
    "Register " ++ name ++ " does not exist, valid registers are " ++ ",".intercalate existing
  | noSource source =>
    "Invalid source register " ++ source ++ ", did you mean to put a string in quotes?"
  | noSubitem segment parent source =>
    "Could not find subitem " ++ segment ++ " in parent " ++ parent ++ "  Item: " ++ source
  | nullSource source =>
    "Tried using value of register " ++ source ++
      " which is null. Registers must not be null when used as source."
  | noLabel label => "There is no label named " ++ label ++ ". Add the label first."
  | noFunction function => "Function " ++ function ++ " not defined"
  | numericName =>
    "Register names must not consist solely of a number. Make sure it is alphanumeric and not " ++
      "parseable to a numeric data type to fix this."
  | symbolicName => "Register names must consist of alphanumeric characters only"
  | notNumbers left right =>
    "Can't do math with " ++ left ++ " and " ++ right ++ ", one of those is not a number"
  | notCountable command register =>
    "Can't " ++ command ++ " non-numeric register value of " ++ register
  | notDuration value => "Can't sleep for non-numeric duration " ++ value
  | divisionByZero => "Can't divide by 0"
  | badJson reason source => "Could not parse JSON: " ++ reason ++ "  Bad JSON: " ++ source
  | nestedFunction enclosing =>
    "Functions can't be nested. End function " ++ enclosing ++ " first"
  | unclosedFunction function =>
    "Function " ++ function ++ " is never closed with endfunction"
  | stackFull notice => notice
  | interrupted => "Interrupted"
  | unreadable file reason => "Could not read " ++ file ++ ": " ++ reason
  | notStarted function reason => "Could not start async call " ++ function ++ ": " ++ reason

/-- The diagnostic of a fault at a line. -/
def report (f : Fault) (line : Option Nat) : Diagnostic := ⟨f.kind, f.message, line⟩

end Fault

end RegisterMachine
