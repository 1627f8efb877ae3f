import RegisterMachine.Number.Double

/-!
Decimals and the doubles nearest to them.
-/

namespace RegisterMachine.Number

/-- The number `digits * 10 ^ exponent`. -/
structure Decimal where
  digits : Nat
  exponent : Int
  deriving DecidableEq, Repr

namespace Decimal

/-- The magnitude of the double nearest to a decimal. Above `10 ^ 400` it is infinite and below
`10 ^ -400` it is zero, so the power of ten is only computed in between. -/
def magnitude (d : Decimal) : Nat :=
  if d.digits = 0 then 0
  else if 400 < d.exponent then infinity
  else if d.exponent < -(Nat.log2 d.digits + 400 : Int) then 0
  else
    match d.exponent with
    | .ofNat e => nearest (d.digits * Nat.pow 10 e) 1
    | .negSucc e => nearest d.digits (Nat.pow 10 (e + 1))

def toDouble (d : Decimal) (negative : Bool) : Float := ofMagnitude negative d.magnitude

end Decimal

def digitValue (c : Char) : Nat := c.toNat - '0'.toNat

/-- The number written by decimal digits. -/
def ofDigits (cs : List Char) : Nat := cs.foldl (fun n c => 10 * n + digitValue c) 0

end RegisterMachine.Number
