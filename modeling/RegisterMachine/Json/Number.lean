import RegisterMachine.Json.Basic
import RegisterMachine.Json.Flaw
import RegisterMachine.Number.Literal

/-!
Reading numbers of a JSON text. A whole number that fits 64 bits stays whole. Any other number is a
double made from the leading digits that fit 64 bits, which a power of ten then scales in double
arithmetic, so it is not always the nearest double.
-/

namespace RegisterMachine.Json

/-- What is read from the front of a text and the text after it, or why nothing could be read. -/
abbrev Reading (α : Type) := Except Failure (α × List Char)

/-- A failure shown by the first byte of a text, or by its end. -/
def refuse {α : Type} (flaw : Flaw) (cs : List Char) : Except Failure α :=
  .error ⟨flaw, byteCount cs - 1⟩

/-- A failure at the end of the text. -/
def refuseEnd {α : Type} (flaw : Flaw) : Except Failure α := .error ⟨flaw, 0⟩

/-- The number that digits continue from `n` as long as it is at most `limit`, and the digits left. -/
def absorb (limit n : Nat) : List Char → Nat × List Char
  | [] => (n, [])
  | c :: rest =>
    let next := 10 * n + Number.digitValue c
    if next ≤ limit then absorb limit next rest else (n, c :: rest)

def powerOfTen (n : Nat) : Float := (Number.Decimal.mk 1 n).toDouble false

/-- Scales a double by a power of ten, in steps of at most `10 ^ 308`; `none` if it grows beyond all
doubles. The first argument bounds the number of steps. -/
def scale : Nat → Float → Int → Option Float
  | 0, x, _ => some x
  | steps + 1, x, exponent =>
    if 308 < exponent.natAbs then
      if x == 0 then some x
      else if 0 ≤ exponent then none
      else scale steps (x / powerOfTen 308) (exponent + 308)
    else if 0 ≤ exponent then
      let scaled := x * powerOfTen exponent.natAbs
      if scaled.isInf then none else some scaled
    else some (x / powerOfTen exponent.natAbs)

def withSign (negative : Bool) (x : Float) : Float := if negative then -x else x

/-- The double that the digits `n` and an exponent stand for. -/
def readScaled (negative : Bool) (n : Nat) (exponent : Int) (rest : List Char) :
    Reading JsonNumber :=
  match scale (exponent.natAbs / 308 + 1) (Number.ofInt n) exponent with
  | none => .error ⟨.outOfRange, byteCount rest⟩
  | some x => .ok (.float (withSign negative x), rest)

/-- Reads what follows an exponent mark. An exponent beyond 32 bits is out of range if it is positive
and the digits before it are not zero, and else makes the number zero. -/
def readExponent (negative : Bool) (n : Nat) (exponent : Int) (cs : List Char) :
    Reading JsonNumber :=
  let (down, cs) := Number.readSign cs
  let rest := cs.dropWhile Char.isDigit
  match cs.takeWhile Char.isDigit with
  | [] => if cs.isEmpty then refuseEnd .endInValue else refuse .badNumber cs
  | digits =>
    match absorb (Nat.pow 2 31 - 1) 0 digits with
    | (e, []) => readScaled negative n (if down then exponent - e else exponent + e) rest
    | (_, _ :: unread) =>
      if n ≠ 0 ∧ !down then .error ⟨.outOfRange, byteCount (unread ++ rest)⟩
      else .ok (.float (withSign negative 0), rest)

/-- Whether a text goes on with an exponent mark. -/
def exponentMark? : List Char → Option (List Char)
  | c :: rest => if c = 'e' ∨ c = 'E' then some rest else none
  | [] => none

/-- Reads what follows a point. Digits that no longer fit are left out. -/
def readFraction (negative : Bool) (n : Nat) (exponent : Int) (cs : List Char) :
    Reading JsonNumber :=
  let rest := cs.dropWhile Char.isDigit
  match cs.takeWhile Char.isDigit with
  | [] => if cs.isEmpty then refuseEnd .endInValue else refuse .badNumber cs
  | digits =>
    let (n, left) := absorb (Nat.pow 2 64 - 1) n digits
    let exponent := exponent - (digits.length - left.length : Nat)
    match exponentMark? rest with
    | some rest => readExponent negative n exponent rest
    | none => readScaled negative n exponent rest

/-- Reads what follows the digits before the point, of which the last `dropped` did not fit. -/
def readTail (negative : Bool) (n dropped : Nat) (cs : List Char) : Reading JsonNumber :=
  match cs with
  | '.' :: rest => readFraction negative n dropped rest
  | _ =>
    match exponentMark? cs with
    | some rest => readExponent negative n dropped rest
    | none =>
      if dropped ≠ 0 then readScaled negative n dropped cs
      else if !negative then .ok (.integer n, cs)
      else if n = 0 ∨ Nat.pow 2 63 < n then .ok (.float (-Number.ofInt n), cs)
      else .ok (.integer (-n), cs)

/-- Reads a number after its sign. A zero is followed by no further digit. -/
def readNumber (negative : Bool) (cs : List Char) : Reading JsonNumber :=
  let rest := cs.dropWhile Char.isDigit
  match cs.takeWhile Char.isDigit with
  | [] => if cs.isEmpty then refuseEnd .endInValue else refuse .badNumber cs
  | '0' :: second :: others => refuse .badNumber (second :: others ++ rest)
  | digits =>
    let (n, left) := absorb (Nat.pow 2 64 - 1) 0 digits
    readTail negative n left.length rest

end RegisterMachine.Json
