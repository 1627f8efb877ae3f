/-!
The arguments of the command line: a file, possibly a function in it, and a choice about colours.
Arguments are read from left to right. A value is checked when the next argument has been recognised,
and an argument that is not recognised is refused before that.
-/

namespace RegisterMachine

inductive ColorChoice where
  | auto
  | always
  | never
  deriving DecidableEq, Repr

namespace ColorChoice

def text : ColorChoice → String
  | auto => "auto"
  | always => "always"
  | never => "never"

def ofText? : String → Option ColorChoice
  | "auto" => some auto
  | "always" => some always
  | "never" => some never
  | _ => none

/-- Whether there are colours, given whether the output goes to a terminal. -/
def isEnabled (terminal : Bool) : ColorChoice → Bool
  | auto => terminal
  | always => true
  | never => false

end ColorChoice

/-- Why arguments do not lead to a run. -/
inductive Refusal where
  | missingArgument
  | unknownArgument
  | invalidValue
  | repeatedOption
  | unwantedValue
  | help
  | version
  deriving DecidableEq, Repr

/-- The exit status. Showing help or the version is a success. -/
def Refusal.status : Refusal → Nat
  | help | version => 0
  | _ => 2

def Refusal.message : Refusal → String
  | missingArgument => "a file is required"
  | unknownArgument => "unexpected argument"
  | invalidValue => "invalid value"
  | repeatedOption => "an option cannot be used multiple times"
  | unwantedValue => "unexpected value for an option"
  | help => "help"
  | version => "version"

def Refusal.usage : String := "Usage: asm [--color <auto|always|never>] <FILE> [FUNCTION]"

structure Arguments where
  file : String
  function : Option String
  color : ColorChoice
  deriving DecidableEq, Repr

namespace Arguments

/-- An argument that has been recognised but not been checked. -/
inductive Item where
  | file (path : String)
  | function (name : String)
  /-- The option for colours, with its value once that has come. -/
  | color (value : Option String)
  deriving DecidableEq, Repr

/-- What has been read so far. -/
structure Reader where
  file : Option String
  function : Option String
  color : Option ColorChoice
  /-- How many arguments without a name have come. -/
  positionals : Nat
  item : Option Item
  /-- Whether a double dash has ended the options. -/
  optionsEnded : Bool
  deriving DecidableEq, Repr

namespace Reader

def initial : Reader := ⟨none, none, none, 0, none, false⟩

/-- Checks the argument that was recognised last. -/
def settle (r : Reader) : Except Refusal Reader :=
  match r.item with
  | none => .ok r
  | some (.file path) =>
    if path.isEmpty then .error .invalidValue else .ok { r with file := some path, item := none }
  | some (.function name) => .ok { r with function := some name, item := none }
  | some (.color none) => .error .invalidValue
  | some (.color (some value)) =>
    if r.color.isSome then .error .repeatedOption
    else
      match ColorChoice.ofText? value with
      | none => .error .invalidValue
      | some choice => .ok { r with color := some choice, item := none }

/-- Takes in an argument without a name: the file, then the function, and no third one. -/
def readPositional (r : Reader) (argument : String) : Except Refusal Reader :=
  match r.positionals with
  | 0 => r.settle.map fun r => { r with positionals := 1, item := some (.file argument) }
  | 1 => r.settle.map fun r => { r with positionals := 2, item := some (.function argument) }
  | _ => .error .unknownArgument

/-- Takes in an argument that begins with two dashes and has a name after them. -/
def readLong (r : Reader) (name : List Char) (value : Option (List Char)) :
    Except Refusal Reader :=
  if name = "color".toList then
    r.settle.bind fun r =>
      match value with
      | none => .ok { r with item := some (.color none) }
      | some value => { r with item := some (.color (some (String.ofList value))) }.settle
  else if name = "help".toList ∨ name = "version".toList then
    if value.isSome then .error .unwantedValue
    else r.settle.bind fun _ => .error (if name = "help".toList then .help else .version)
  else .error .unknownArgument

/-- Takes in an argument that begins with one dash, given the letter after it. -/
def readShort (r : Reader) (letter : Char) : Except Refusal Reader :=
  if letter = 'h' then r.settle.bind fun _ => .error .help
  else if letter = 'V' then r.settle.bind fun _ => .error .version
  else .error .unknownArgument

/-- Takes in an argument that is no option: the value of one that waits for it, or a positional. -/
def readPlain (r : Reader) (argument : String) : Except Refusal Reader :=
  match r.item with
  | some (.color none) => .ok { r with item := some (.color (some argument)) }
  | _ => r.readPositional argument

/-- Takes in one argument. -/
def read (r : Reader) (argument : String) : Except Refusal Reader :=
  if r.optionsEnded then r.readPositional argument
  else
    match argument.toList with
    | ['-', '-'] => .ok { r with optionsEnded := true }
    | '-' :: '-' :: rest =>
      r.readLong (rest.takeWhile (· ≠ '=')) ((rest.dropWhile (· ≠ '=')).tail?)
    | '-' :: letter :: _ => r.readShort letter
    | _ => r.readPlain argument

def readAll (r : Reader) : List String → Except Refusal Reader
  | [] => .ok r
  | argument :: rest => (r.read argument).bind fun r => r.readAll rest

/-- The arguments read, if there is a file among them. -/
def finish (r : Reader) : Except Refusal Arguments :=
  r.settle.bind fun r =>
    match r.file with
    | none => .error .missingArgument
    | some file => .ok ⟨file, r.function, r.color.getD .auto⟩

end Reader

def parse (arguments : List String) : Except Refusal Arguments :=
  (Reader.initial.readAll arguments).bind Reader.finish

/-- The arguments for a run of one function of the same file on its own. -/
def forChild (a : Arguments) (colors : Bool) (function : String) : List String :=
  [a.file, "--color", (if colors then ColorChoice.always else .never).text, function]

end Arguments

end RegisterMachine
