import RegisterMachine.Number.Shortest

/-!
Writing doubles. A layout says which numbers are written positionally, how a whole number is marked
and which way ties between equally short texts go; all other numbers have an exponent with its sign.
-/

namespace RegisterMachine.Number

/-- The decisions of one way to write numbers. -/
structure Layout where
  /-- The least place of a leading digit that is written positionally. -/
  least : Int
  /-- The greatest place of a leading digit that is written positionally. -/
  greatest : Int
  /-- What follows the digits of a whole number in positional form. -/
  wholeMark : String
  tie : Tie

/-- The digits of a decimal without trailing zeros, and how many of them stand before the point
(fewer than none if zeros follow the point). -/
def significant (d : Decimal) : List Char × Int :=
  let digits := Nat.toDigits 10 d.digits
  match (digits.reverse.dropWhile (· == '0')).reverse with
  | [] => (['0'], 1)
  | kept => (kept, digits.length + d.exponent)

/-- Digits with the point after the first `point` of them. -/
def positional (wholeMark : String) (digits : List Char) (point : Int) : String :=
  if point ≤ 0 then
    "0." ++ String.ofList (List.replicate (-point).toNat '0' ++ digits)
  else if digits.length ≤ point then
    String.ofList (digits ++ List.replicate (point - digits.length).toNat '0') ++ wholeMark
  else
    String.ofList (digits.take point.toNat) ++ "." ++ String.ofList (digits.drop point.toNat)

/-- Digits with the point after the first one, and the exponent that this takes. -/
def scientific (digits : List Char) (exponent : Int) : String :=
  let sign := if exponent < 0 then "e-" else "e+"
  let mantissa :=
    match digits with
    | [] => ""
    | [d] => String.ofList [d]
    | d :: rest => String.ofList (d :: '.' :: rest)
  mantissa ++ sign ++ String.ofList (Nat.toDigits 10 exponent.natAbs)

/-- The text of a finite magnitude. -/
def Layout.unsigned (l : Layout) (bits : Nat) : String :=
  let (digits, point) := significant (shortest l.tie bits)
  if l.least ≤ point - 1 ∧ point - 1 ≤ l.greatest then positional l.wholeMark digits point
  else scientific digits (point - 1)

/-- The text of a finite double. -/
def Layout.text (l : Layout) (x : Float) : String :=
  let body := l.unsigned (magnitude x)
  if isNegative x then "-" ++ body else body

/-- How the machine writes its numbers: positionally from `10 ^ -6` to below `10 ^ 21`. -/
def plain : Layout := ⟨-6, 20, "", .up⟩

/-- The text of a double as a value of the machine. Zero has no sign. -/
def text (x : Float) : String :=
  if x.isNaN then "NaN"
  else if x.isInf then (if x < 0 then "-Infinity" else "Infinity")
  else if x == 0 then "0"
  else plain.text x

end RegisterMachine.Number
