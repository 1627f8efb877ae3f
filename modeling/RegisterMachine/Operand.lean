import RegisterMachine.Attempt
import RegisterMachine.Bank
import RegisterMachine.Json.Reader

/-!
Source operands: a quoted string, a number, a truth value, an object in JSON, or a register with a
path into what it holds.
-/

namespace RegisterMachine.Operand

/-- The text before the first point, and the texts between and after the points. -/
def segments : List Char → List Char × List (List Char)
  | [] => ([], [])
  | c :: rest =>
    let (first, others) := segments rest
    if c = '.' then ([], first :: others) else (c :: first, others)

/-- Follows a path into a value. -/
def follow (source parent : String) (value : Value) : List String → Except Fault Value
  | [] => .ok value
  | segment :: rest =>
    match value.field? segment with
    | some item => follow source segment item rest
    | none => .error (.noSubitem segment parent source)

/-- The value of a register, or of what a path leads to in it. It must not be null. -/
def resolvePath (source : String) (bank : Bank) : Except Fault Value := do
  let (first, others) := segments source.toList
  let register := String.ofList first
  match bank.find? register with
  | none => .error (.noSource source)
  | some held =>
    let value ← follow source register held (others.map String.ofList)
    if value.isNull then .error (.nullSource source) else .ok value

/-- The text of a quoted string without its quotes; the last one may be missing. -/
def unquote? : List Char → Option (List Char)
  | '"' :: rest => some (if rest.getLast? = some '"' then rest.dropLast else rest)
  | _ => none

/-- Whether a text is taken for an object in JSON. -/
def isBraced (cs : List Char) : Bool := cs.head? = some '\x7b' && cs.getLast? = some '\x7d'

/-- The value that an operand stands for. An object that cannot be read stands for null, with a
warning. -/
def resolve (source : String) (bank : Bank) : Attempt Value :=
  match unquote? source.toList with
  | some s => pure (.string (String.ofList s))
  | none =>
    match Number.read? source with
    | some x => pure (.number x)
    | none =>
      if source = "true" then pure (.boolean true)
      else if source = "false" then pure (.boolean false)
      else if isBraced source.toList then
        match Json.parse source.toList with
        | .ok document => pure (.ofJson document)
        | .error failure => do
          Attempt.warn (.badJson (failure.message source.toList) source)
          return .null
      else Attempt.ofExcept (resolvePath source bank)

end RegisterMachine.Operand
