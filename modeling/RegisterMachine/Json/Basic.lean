import RegisterMachine.Number.Double
import RegisterMachine.Table

/-!
JSON documents. A number is a whole number or a double, and the two are never equal. An object keeps
its keys in the order in which they first came.
-/

namespace RegisterMachine

/-- A whole number from `-2 ^ 63` to below `2 ^ 64`, or a double. -/
inductive JsonNumber where
  | integer (n : Int)
  | float (x : Float)

namespace JsonNumber

def toDouble : JsonNumber → Float
  | integer n => Number.ofInt n
  | float x => x

def same : JsonNumber → JsonNumber → Bool
  | integer m, integer n => m == n
  | float x, float y => x == y
  | _, _ => false

end JsonNumber

inductive Json where
  | null
  | boolean (b : Bool)
  | number (n : JsonNumber)
  | string (s : String)
  | array (items : List Json)
  | object (fields : List (String × Json))

namespace Json

mutual

/-- Equality of documents: arrays item by item, objects as tables whatever their order. -/
def same : Json → Json → Bool
  | null, null => true
  | boolean a, boolean b => a == b
  | number m, number n => m.same n
  | string s, string t => s == t
  | array xs, array ys => sameItems xs ys
  | object xs, object ys => xs.length == ys.length && sameFields xs ys
  | _, _ => false

def sameItems : List Json → List Json → Bool
  | [], [] => true
  | x :: xs, y :: ys => same x y && sameItems xs ys
  | _, _ => false

/-- Whether every field of the first list has an equal one under its key in the second. -/
def sameFields : List (String × Json) → Table Json → Bool
  | [], _ => true
  | (key, x) :: xs, ys =>
    (match ys.find? key with
      | some y => same x y
      | none => false) && sameFields xs ys

end

end Json

end RegisterMachine
