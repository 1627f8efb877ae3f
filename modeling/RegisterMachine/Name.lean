import RegisterMachine.Fault
import RegisterMachine.Number.Literal

/-!
Register names: letters and digits of ASCII that do not read as a number, so that an operand such as
`1e5` can only be a number.
-/

namespace RegisterMachine.Name

def check (name : String) : Except Fault Unit :=
  if Number.isLiteral name then .error .numericName
  else if name.toList.isEmpty || !name.toList.all Char.isAlphanum then .error .symbolicName
  else .ok ()

/-- Whether a register can have this name. -/
def isValid (name : String) : Bool :=
  !Number.isLiteral name && !name.toList.isEmpty && name.toList.all Char.isAlphanum

theorem check_eq_ok_iff (name : String) : check name = .ok () ↔ isValid name = true := by
  unfold check isValid
  cases Number.isLiteral name <;> cases name.toList.isEmpty <;>
    cases name.toList.all Char.isAlphanum <;> simp

end RegisterMachine.Name
