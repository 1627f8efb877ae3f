import RegisterMachine.Number.Decimal

/-!
Number literals: an optional sign, digits with an optional point among or around them, and an
optional exponent. A literal means the nearest double, which is infinite if the literal is too large.
-/

namespace RegisterMachine.Number

structure Literal where
  negative : Bool
  decimal : Decimal
  deriving DecidableEq, Repr

/-- Whether a minus sign comes first, and the text after the sign, if there is one. -/
def readSign : List Char → Bool × List Char
  | '-' :: rest => (true, rest)
  | '+' :: rest => (false, rest)
  | cs => (false, cs)

/-- The digits after the point, if there is one, and the text after them. -/
def readFraction : List Char → List Char × List Char
  | '.' :: rest => (rest.takeWhile Char.isDigit, rest.dropWhile Char.isDigit)
  | cs => ([], cs)

/-- The exponent that makes up the whole text; no text is the exponent 0. -/
def readExponent : List Char → Option Int
  | [] => some 0
  | c :: rest =>
    if c = 'e' ∨ c = 'E' then
      match readSign rest with
      | (_, []) => none
      | (negative, digits) =>
        if digits.all Char.isDigit then
          some (if negative then -(ofDigits digits : Int) else ofDigits digits)
        else none
    else none

namespace Literal

def read? (cs : List Char) : Option Literal :=
  let (negative, unsigned) := readSign cs
  let whole := unsigned.takeWhile Char.isDigit
  let (fraction, rest) := readFraction (unsigned.dropWhile Char.isDigit)
  if whole.isEmpty && fraction.isEmpty then none
  else
    (readExponent rest).map fun exponent =>
      ⟨negative, ⟨ofDigits (whole ++ fraction), exponent - fraction.length⟩⟩

def toDouble (l : Literal) : Float := l.decimal.toDouble l.negative

end Literal

/-- Whether a text is a number literal. -/
def isLiteral (s : String) : Bool := (Literal.read? s.toList).isSome

/-- The double that a text writes, if it is a number literal. -/
def read? (s : String) : Option Float := (Literal.read? s.toList).map Literal.toDouble

theorem isSome_read? (s : String) : (read? s).isSome = isLiteral s := by
  simp [read?, isLiteral]

end RegisterMachine.Number
