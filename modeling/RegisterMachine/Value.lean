import RegisterMachine.Fault
import RegisterMachine.Json.Printer
import RegisterMachine.Number.Literal

/-!
Values: what registers hold and operands stand for. Arrays and objects are JSON; a scalar of JSON is
the value of its own kind.
-/

namespace RegisterMachine

inductive Value where
  | null
  | number (x : Float)
  | boolean (b : Bool)
  | string (s : String)
  | array (items : List Json)
  | object (fields : Table Json)

/-- An index into an array: digits, possibly after a plus sign, of a number below `2 ^ 64`. -/
def readIndex? (name : String) : Option Nat :=
  let digits :=
    match name.toList with
    | '+' :: rest => rest
    | cs => cs
  if digits.isEmpty || !digits.all Char.isDigit then none
  else
    let n := Number.ofDigits digits
    if n < Nat.pow 2 64 then some n else none

namespace Value

def ofJson : Json → Value
  | .null => null
  | .boolean b => boolean b
  | .number n => number n.toDouble
  | .string s => string s
  | .array items => array items
  | .object fields => object fields

def toJson : Value → Json
  | null => .null
  | number x => .number (.float x)
  | boolean b => .boolean b
  | string s => .string s
  | array items => .array items
  | object fields => .object fields

def isNull : Value → Bool
  | null => true
  | _ => false

/-- What a value counts as in arithmetic: a finite number as itself, and a string that is a number
literal as that number. -/
def toNumber? : Value → Option Float
  | number x => if x.isFinite then some x else none
  | string s => Number.read? s
  | _ => none

def isTruthy : Value → Bool
  | null => false
  | number x => x != 0
  | boolean b => b
  | string s => !s.isEmpty
  | array items => !items.isEmpty
  | object fields => !fields.isEmpty

/-- The item of an array at an index, or the field of an object under a key. -/
def field? (name : String) : Value → Option Value
  | array items =>
    match readIndex? name with
    | some index => items[index]?.map ofJson
    | none => none
  | object fields => (fields.find? name).map ofJson
  | _ => none

/-- Equality as the language sees it: numbers as doubles, and nothing equals a value of another
kind. -/
def same : Value → Value → Bool
  | null, null => true
  | number x, number y => x == y
  | boolean a, boolean b => a == b
  | string s, string t => s == t
  | array xs, array ys => (Json.array xs).same (.array ys)
  | object xs, object ys => (Json.object xs).same (.object ys)
  | _, _ => false

def text : Value → String
  | null => "null"
  | number x => Number.text x
  | boolean b => if b then "true" else "false"
  | string s => s
  | array items => (Json.array items).text
  | object fields => (Json.object fields).text

/-- The other truth value, the characters in reverse, or for a number whether it is zero. -/
def reverse : Value → Value
  | number x => number (if x == 0 then 1 else 0)
  | string s => string (String.ofList s.toList.reverse)
  | boolean b => boolean !b
  | _ => null

end Value

end RegisterMachine
