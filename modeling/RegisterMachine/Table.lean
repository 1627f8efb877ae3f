/-!
Tables: values under names, in the order in which the names came in.
-/

namespace RegisterMachine

abbrev Table (α : Type) := List (String × α)

namespace Table

variable {α : Type}

def names (t : Table α) : List String := t.map Prod.fst

def find? : Table α → String → Option α
  | [], _ => none
  | (key, value) :: rest, name => if key = name then some value else find? rest name

/-- Gives a name a new value in its place. A name that is not there changes nothing. -/
def replace : Table α → String → α → Table α
  | [], _, _ => []
  | (key, old) :: rest, name, value =>
    if key = name then (key, value) :: rest else (key, old) :: replace rest name value

/-- Gives a name a value: in its place if it is there, else at the end. -/
def put : Table α → String → α → Table α
  | [], name, value => [(name, value)]
  | (key, old) :: rest, name, value =>
    if key = name then (key, value) :: rest else (key, old) :: put rest name value

/-- Takes a name out and keeps the others in order. -/
def erase : Table α → String → Table α
  | [], _ => []
  | (key, value) :: rest, name => if key = name then rest else (key, value) :: erase rest name

def contains (t : Table α) (name : String) : Bool := (t.find? name).isSome

@[simp] theorem names_replace (t : Table α) (name : String) (value : α) :
    (t.replace name value).names = t.names := by
  induction t with
  | nil => rfl
  | cons entry rest ih =>
    obtain ⟨key, old⟩ := entry
    simp only [replace]
    split
    · rfl
    · simpa [names] using ih

theorem find?_isSome_iff (t : Table α) (name : String) :
    (t.find? name).isSome = true ↔ name ∈ t.names := by
  induction t with
  | nil => simp [find?, names]
  | cons entry rest ih =>
    obtain ⟨key, value⟩ := entry
    by_cases same : key = name
    · simp [find?, names, same]
    · have different : ¬ name = key := fun h => same h.symm
      simpa [find?, names, same, different] using ih

end Table

end RegisterMachine
