import RegisterMachine.Fault
import RegisterMachine.Note

/-!
Attempts: computations that log notes, raise warnings and may fail. What was noted and warned of
before a failure is kept.
-/

namespace RegisterMachine

structure Attempt (α : Type) where
  notes : List Note
  warnings : List Fault
  result : Except Fault α

namespace Attempt

variable {α β : Type}

def note (n : Note) : Attempt Unit := ⟨[n], [], .ok ()⟩

def warn (f : Fault) : Attempt Unit := ⟨[], [f], .ok ()⟩

def fail (f : Fault) : Attempt α := ⟨[], [], .error f⟩

def ofExcept (r : Except Fault α) : Attempt α := ⟨[], [], r⟩

instance : Monad Attempt where
  pure a := ⟨[], [], .ok a⟩
  bind x f :=
    match x.result with
    | .error e => ⟨x.notes, x.warnings, .error e⟩
    | .ok a =>
      let y := f a
      ⟨x.notes ++ y.notes, x.warnings ++ y.warnings, y.result⟩

instance : MonadLift (Except Fault) Attempt where
  monadLift := ofExcept

end Attempt

end RegisterMachine
