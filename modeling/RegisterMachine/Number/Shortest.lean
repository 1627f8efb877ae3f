import RegisterMachine.Number.Decimal

/-!
The fewest decimal digits that read back as a given double. On each grid of decimals, from coarse to
fine, the two neighbours of the double are tried, and the first grid with a neighbour that reads back
decides; of two such neighbours the nearer one is taken.
-/

namespace RegisterMachine.Number

/-- Which neighbour is taken when both are equally near. -/
inductive Tie where
  | up
  | even
  deriving DecidableEq, Repr

def Tie.pick (low : Nat) : Tie → Nat
  | .up => low + 1
  | .even => low + low % 2

/-- How many decimal digits a positive number has. -/
def digitCount (n : Nat) : Nat := (Nat.toDigits 10 n).length

/-- The power of ten of the leading digit of `n / d`, both positive. -/
def leadingPlace (n d : Nat) : Int :=
  if d ≤ n then (digitCount (n / d) : Int) - 1 else -(digitCount ((d - 1) / n) : Int)

/-- The quotient `n / d` in units of a power of ten, as a numerator and a denominator. -/
def inUnits (n d : Nat) : Int → Nat × Nat
  | .ofNat place => (n, d * Nat.pow 10 place)
  | .negSucc place => (n * Nat.pow 10 (place + 1), d)

/-- The multiple of `10 ^ place` next to a magnitude that reads back as it. -/
def neighbour? (tie : Tie) (bits : Nat) (place : Int) : Option Nat :=
  let (n, d) := inUnits (quanta bits) (Nat.pow 2 1074) place
  let low := n / d
  let rest := n % d
  let reads (digits : Nat) : Bool := (Decimal.mk digits place).magnitude == bits
  match reads low, reads (low + 1) with
  | true, true =>
    if 2 * rest < d then some low
    else if d < 2 * rest then some (low + 1)
    else some (tie.pick low)
  | true, false => some low
  | false, true => some (low + 1)
  | false, false => none

/-- The exact value of a finite magnitude. -/
def exactDecimal (bits : Nat) : Decimal := ⟨quanta bits * Nat.pow 5 1074, -1074⟩

/-- The first grid, from `place` down and among the given number of grids, with a neighbour that
reads back; the exact value if there is none. -/
def coarsest (tie : Tie) (bits : Nat) : Nat → Int → Decimal
  | 0, _ => exactDecimal bits
  | grids + 1, place =>
    match neighbour? tie bits place with
    | some digits => ⟨digits, place⟩
    | none => coarsest tie bits grids (place - 1)

/-- A decimal with the fewest digits that reads back as a finite magnitude. -/
def shortest (tie : Tie) (bits : Nat) : Decimal :=
  if bits = 0 then ⟨0, 0⟩
  else coarsest tie bits 17 (leadingPlace (quanta bits) (Nat.pow 2 1074))

end RegisterMachine.Number
