import RegisterMachine.Fault

/-!
Stacks that hold a limited number of items.
-/

namespace RegisterMachine

structure Stack (α : Type) where
  /-- How many items fit. -/
  limit : Nat
  /-- What is said when no further item fits. -/
  notice : String
  /-- The items, the top one first. -/
  items : List α
  depth : Nat
  depth_eq : depth = items.length

namespace Stack

variable {α : Type}

def empty (limit : Nat) (notice : String) : Stack α := ⟨limit, notice, [], 0, rfl⟩

def isEmpty (s : Stack α) : Bool := s.items.isEmpty

def top? (s : Stack α) : Option α := s.items.head?

/-- The items, the bottom one first. -/
def toList (s : Stack α) : List α := s.items.reverse

/-- A push beyond the limit fails and leaves no trace. -/
def push (s : Stack α) (item : α) : Except Fault (Stack α) :=
  if s.depth < s.limit then
    .ok { s with
      items := item :: s.items
      depth := s.depth + 1
      depth_eq := by simp [s.depth_eq] }
  else .error (.stackFull s.notice)

def pop? (s : Stack α) : Option (α × Stack α) :=
  match h : s.items with
  | [] => none
  | item :: rest =>
    some (item, { s with
      items := rest
      depth := s.depth - 1
      depth_eq := by simp [s.depth_eq, h] })

theorem toList_push {s t : Stack α} {item : α} (h : s.push item = .ok t) :
    t.toList = s.toList ++ [item] := by
  unfold push at h
  split at h
  · cases h; simp [toList]
  · cases h

end Stack

end RegisterMachine
