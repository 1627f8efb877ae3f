/-!
Diagnostics: what is told about a problem, with the source line that it belongs to.
-/

namespace RegisterMachine

/-- The kinds of problems. -/
inductive Kind where
  | argumentCount
  | unknownInstruction
  | undefinedRegister
  | undefinedSubitem
  | undefinedLabel
  | undefinedFunction
  | nullSource
  | invalidRegisterName
  | typeMismatch
  | divisionByZero
  | malformedJson
  | nestedFunction
  | unclosedFunction
  | stackOverflow
  | interrupted
  | io
  deriving DecidableEq, Repr

namespace Kind

/-- All kinds. -/
def all : List Kind :=
  [argumentCount, unknownInstruction, undefinedRegister, undefinedSubitem, undefinedLabel,
    undefinedFunction, nullSource, invalidRegisterName, typeMismatch, divisionByZero, malformedJson,
    nestedFunction, unclosedFunction, stackOverflow, interrupted, io]

def name : Kind → String
  | argumentCount => "ArgumentCount"
  | unknownInstruction => "UnknownInstruction"
  | undefinedRegister => "UndefinedRegister"
  | undefinedSubitem => "UndefinedSubitem"
  | undefinedLabel => "UndefinedLabel"
  | undefinedFunction => "UndefinedFunction"
  | nullSource => "NullSource"
  | invalidRegisterName => "InvalidRegisterName"
  | typeMismatch => "TypeMismatch"
  | divisionByZero => "DivisionByZero"
  | malformedJson => "MalformedJson"
  | nestedFunction => "NestedFunction"
  | unclosedFunction => "UnclosedFunction"
  | stackOverflow => "StackOverflow"
  | interrupted => "Interrupted"
  | io => "Io"

/-- What a diagnostic says if it has no message of its own. -/
def description : Kind → String
  | argumentCount => "Wrong number of arguments"
  | unknownInstruction => "Unknown instruction"
  | undefinedRegister => "Undefined register"
  | undefinedSubitem => "Undefined subitem"
  | undefinedLabel => "Undefined label"
  | undefinedFunction => "Undefined function"
  | nullSource => "Register used as source is null"
  | invalidRegisterName => "Invalid register name"
  | typeMismatch => "Type mismatch"
  | divisionByZero => "Division by zero"
  | malformedJson => "Malformed JSON"
  | nestedFunction => "Nested function"
  | unclosedFunction => "Function without endfunction"
  | stackOverflow => "Call stack overflow"
  | interrupted => "Interrupted"
  | io => "I/O error"

end Kind

structure Diagnostic where
  kind : Kind
  /-- The message; an empty one stands for the description of the kind. -/
  message : String := ""
  line : Option Nat := none
  deriving DecidableEq, Repr

namespace Diagnostic

/-- Sets the line, unless there is one already. -/
def attach (d : Diagnostic) (line : Option Nat) : Diagnostic := { d with line := d.line.or line }

def text (d : Diagnostic) : String :=
  let body := if d.message.isEmpty then d.kind.description else d.message
  match d.line with
  | none => body
  | some line => "Line " ++ toString line ++ ": " ++ body

/-- The text with the name of the kind. -/
def summary (d : Diagnostic) : String :=
  "Error \x7b " ++ d.kind.name ++ ": " ++ d.text ++ " \x7d"

end Diagnostic

end RegisterMachine
