/-!
Doubles as whole numbers of quanta. The least positive double is the quantum `2 ^ -1074`, and every
finite double is a whole number of quanta with a sign, so sums, comparisons and remainders of
doubles are exact on natural numbers.
-/

namespace RegisterMachine.Number

/-- The bits of a double without its sign. -/
def magnitude (x : Float) : Nat := x.toBits.toNat % Nat.pow 2 63

/-- The sign bit, which is also set on negative zero. -/
def isNegative (x : Float) : Bool := Nat.pow 2 63 ≤ x.toBits.toNat

/-- The magnitude of the infinities. -/
def infinity : Nat := 2047 * Nat.pow 2 52

/-- The double with the given sign and magnitude. -/
def ofMagnitude (negative : Bool) (bits : Nat) : Float :=
  Float.ofBits (UInt64.ofNat (if negative then bits + Nat.pow 2 63 else bits))

/-- The number of quanta in a finite magnitude: 52 bits of fraction below an exponent, which counts
doublings from 1, with a leading bit that is not stored unless the exponent is 0. -/
def quanta (bits : Nat) : Nat :=
  let exponent := bits / Nat.pow 2 52
  let fraction := bits % Nat.pow 2 52
  if exponent = 0 then fraction else (fraction + Nat.pow 2 52) * Nat.pow 2 (exponent - 1)

/-- The quotient rounded to the nearest whole number, a half to the even neighbour. -/
def divHalfEven (n d : Nat) : Nat :=
  let q := n / d
  let r := n % d
  if 2 * r < d then q
  else if d < 2 * r then q + 1
  else q + q % 2

/-- The magnitude of the double nearest to `n / d`, a half to the even neighbour. The first 53 bits
of the quotient, counted in quanta, are kept and rounded; a carry out of them moves on to the
exponent by itself. -/
def nearest (n d : Nat) : Nat :=
  let scaled := n * Nat.pow 2 1074
  let dropped := Nat.log2 (scaled / d) - 52
  min (divHalfEven scaled (d * Nat.pow 2 dropped) + dropped * Nat.pow 2 52) infinity

/-- The double nearest to a whole number. -/
def ofInt (n : Int) : Float := ofMagnitude (n < 0) (nearest n.natAbs 1)

/-- The remainder of a division that rounds toward zero. It has the sign of `x` and is exact; there
is none of an infinite `x` or for a zero `y`. -/
def remainder (x y : Float) : Float :=
  if !x.isFinite || y.isNaN || y == 0 then 0 / 0
  else if y.isInf then x
  else
    ofMagnitude (isNegative x)
      (nearest (quanta (magnitude x) % quanta (magnitude y)) (Nat.pow 2 1074))

end RegisterMachine.Number
