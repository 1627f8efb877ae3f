import RegisterMachine.Name
import RegisterMachine.Value

/-!
The bank of registers, in the order in which they were created.
-/

namespace RegisterMachine

structure Bank where
  registers : Table Value

namespace Bank

/-- The registers `rg0` to `rg9`, all null. -/
def initial : Bank := ⟨(List.range 10).map fun n => ("rg" ++ toString n, .null)⟩

def names (b : Bank) : List String := b.registers.names

def find? (b : Bank) (name : String) : Option Value := b.registers.find? name

def contains (b : Bank) (name : String) : Bool := b.registers.contains name

def get (b : Bank) (name : String) : Except Fault Value :=
  match b.find? name with
  | some value => .ok value
  | none => .error (.noRegister name b.names)

def set (b : Bank) (name : String) (value : Value) : Except Fault Bank :=
  if b.contains name then .ok ⟨b.registers.replace name value⟩
  else .error (.noRegister name b.names)

/-- Adds a null register at the end, or makes the one of that name null in its place. -/
def create (b : Bank) (name : String) : Except Fault Bank :=
  (Name.check name).map fun _ => ⟨b.registers.put name .null⟩

/-- Takes a register out, if it is there. -/
def erase (b : Bank) (name : String) : Bank := ⟨b.registers.erase name⟩

/-- Takes a register out and tells whether it was there. -/
def delete (b : Bank) (name : String) : Bank × Bool := (b.erase name, b.contains name)

end Bank

end RegisterMachine
