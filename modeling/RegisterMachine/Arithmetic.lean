import RegisterMachine.Value

/-!
Arithmetic on values, in doubles.
-/

namespace RegisterMachine

inductive Arithmetic where
  | add
  | subtract
  | multiply
  | divide
  | power
  | modulo
  deriving DecidableEq, Repr

namespace Arithmetic

/-- The result on numbers. Only a division by zero has none. -/
def onNumbers (x y : Float) : Arithmetic → Except Fault Float
  | add => .ok (x + y)
  | subtract => .ok (x - y)
  | multiply => .ok (x * y)
  | divide => if y == 0 then .error .divisionByZero else .ok (x / y)
  | power => .ok (Float.pow x y)
  | modulo => .ok (Number.remainder x y)

def apply (op : Arithmetic) (left right : Value) : Except Fault Value :=
  match left.toNumber?, right.toNumber? with
  | some x, some y => (op.onNumbers x y).map Value.number
  | _, _ => .error (.notNumbers left.text right.text)

end Arithmetic

/-- Counting up or down by one. -/
inductive Count where
  | up
  | down
  deriving DecidableEq, Repr

namespace Count

/-- The command that counts this way. -/
def command : Count → String
  | up => "inc"
  | down => "dec"

/-- The next value of a register. -/
def apply (c : Count) (register : String) (value : Value) : Except Fault Value :=
  match value.toNumber? with
  | none => .error (.notCountable c.command register)
  | some x =>
    match c with
    | up => .ok (.number (x + 1))
    | down => .ok (.number (x - 1))

end Count

end RegisterMachine
