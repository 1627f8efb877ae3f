/-!
How many operands an instruction takes.
-/

namespace RegisterMachine

/-- At least `least` operands, and at most `most` if there is a limit. -/
structure Arity where
  least : Nat
  most : Option Nat
  deriving DecidableEq, Repr

namespace Arity

def exactly (n : Nat) : Arity := ⟨n, some n⟩

def atLeast (n : Nat) : Arity := ⟨n, none⟩

def admits (a : Arity) (count : Nat) : Bool :=
  a.least ≤ count &&
    match a.most with
    | some most => count ≤ most
    | none => true

/-- What is said about a count that is not admitted. -/
def refusal (a : Arity) (count : Nat) : String :=
  let expected :=
    match a.most with
    | none => "at least " ++ toString a.least
    | some most =>
      if most = a.least then toString a.least else toString a.least ++ " to " ++ toString most
  "Expected " ++ expected ++ " arguments, got " ++ toString count

end Arity

end RegisterMachine
