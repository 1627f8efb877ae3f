import Mathlib.Data.List.DropRight
import Mathlib.Order.Bounds.Basic
import RegisterMachine.Proofs.Registers

/-!
The bank of registers and its history. Calls on a bank are recorded with their answers. What a register
holds, and where it stands among the others, is told by the record alone: a register holds what was set
last since it was made last, and stands where it was made last while there was none of its name
(`Recorded`). Each call keeps the bank to its record (`Recorded.serve`), so every series of calls does
(`after_recorded`).
-/

namespace RegisterMachine.Bank

/-- What can be asked of a bank. -/
inductive Call where
  | create (name : String)
  | delete (name : String)
  | set (name : String) (value : Value)
  | get (name : String)
  | lookup (name : String)

/-- What a call is answered with. -/
inductive Answer where
  | done
  | deleted (there : Bool)
  | got (value : Value)
  | found (value : Option Value)
  | failed (fault : Fault)

def Answer.isFailure : Answer → Bool
  | failed _ => true
  | _ => false

/-- The answer to a call that changes the bank or fails. -/
def settle (b : Bank) : Except Fault Bank → Bank × Answer
  | .ok next => (next, .done)
  | .error fault => (b, .failed fault)

def serve (b : Bank) : Call → Bank × Answer
  | .create name => b.settle (b.create name)
  | .delete name =>
    let (next, there) := b.delete name
    (next, .deleted there)
  | .set name value => b.settle (b.set name value)
  | .get name =>
    (b, match b.get name with
      | .ok value => .got value
      | .error fault => .failed fault)
  | .lookup name => (b, .found (b.find? name))

/-- The bank after calls. -/
def after (b : Bank) (calls : List Call) : Bank := calls.foldl (fun b call => (b.serve call).1) b

/-- Calls and their answers, the oldest first. -/
abbrev Record := List (Call × Answer)

/-- The record of calls on a bank. -/
def record (b : Bank) : List Call → Record
  | [] => []
  | call :: rest => (call, (b.serve call).2) :: (b.serve call).1.record rest

namespace Record

/-- Whether a register of this name was made, or made null again. -/
def makes (name : String) : Call × Answer → Bool
  | (.create made, .done) => made = name
  | _ => false

def deletes (name : String) : Call × Answer → Bool
  | (.delete deleted, _) => deleted = name
  | _ => false

/-- The value that was set. -/
def sets? (name : String) : Call × Answer → Option Value
  | (.set target value, .done) => if target = name then some value else none
  | _ => none

/-- What came after the register was made for the last time. -/
def since (r : Record) (name : String) : Record := r.rtakeWhile fun entry => !makes name entry

/-- Whether a register was never made or was deleted since. -/
def lacks (r : Record) (name : String) : Bool :=
  !r.any (makes name) || (r.since name).any (deletes name)

/-- What a register holds by its record: nothing if there is none, and otherwise what was set last
since it was made, or null. -/
def recalls (r : Record) (name : String) : Option Value :=
  if r.lacks name then none
  else some (((r.since name).filterMap (sets? name)).getLast?.getD .null)

/-- At this place a register of the name was made while there was none. -/
def Founds (r : Record) (name : String) (place : Nat) : Prop :=
  r[place]?.any (makes name) = true ∧ recalls (r.take place) name = none

/-- The last place where a register of the name was made while there was none. -/
def Founded (r : Record) (name : String) (place : Nat) : Prop :=
  IsGreatest {place | r.Founds name place} place

variable {r : Record} {entry : Call × Answer} {name : String}

theorem makes_unique {other : String} (made : makes name entry = true)
    (madeToo : makes other entry = true) : name = other := by
  unfold makes at made madeToo
  split at made
  · simp only [decide_eq_true_eq] at made madeToo
    rw [← made, ← madeToo]
  · cases made

theorem since_concat (r : Record) (entry : Call × Answer) (name : String) :
    since (r ++ [entry]) name = if makes name entry then [] else since r name ++ [entry] := by
  rw [since, List.rtakeWhile_concat]
  cases makes name entry <;> rfl

theorem lacks_concat (unmade : makes name entry = false) :
    lacks (r ++ [entry]) name = (r.lacks name || deletes name entry) := by
  simp [lacks, since_concat, unmade, Bool.or_assoc]

theorem recalls_made (made : makes name entry = true) :
    recalls (r ++ [entry]) name = some .null := by
  simp [recalls, lacks, since_concat, made]

theorem recalls_deleted (unmade : makes name entry = false) (deleted : deletes name entry = true) :
    recalls (r ++ [entry]) name = none := by
  simp [recalls, lacks_concat unmade, deleted]

/-- Setting a register counts if the register is there. -/
theorem recalls_set {v : Value} (unmade : makes name entry = false)
    (kept : deletes name entry = false) (set : sets? name entry = some v) :
    recalls (r ++ [entry]) name = (recalls r name).map fun _ => v := by
  unfold recalls
  rw [lacks_concat unmade, kept, Bool.or_false]
  cases r.lacks name with
  | true => rfl
  | false => simp [since_concat, unmade, set]

theorem recalls_other (unmade : makes name entry = false) (kept : deletes name entry = false)
    (unset : sets? name entry = none) : recalls (r ++ [entry]) name = recalls r name := by
  unfold recalls
  rw [lacks_concat unmade, kept, Bool.or_false]
  simp [since_concat, unmade, unset]

theorem founds_concat (place : Nat) :
    (r ++ [entry]).Founds name place ↔
      r.Founds name place ∨
        place = r.length ∧ makes name entry = true ∧ recalls r name = none := by
  unfold Founds
  rcases Nat.lt_trichotomy place r.length with before | same | beyond
  · have old : (r ++ [entry])[place]? = r[place]? := List.getElem?_append_left before
    rw [old, List.take_append_of_le_length before.le]
    constructor
    · exact .inl
    · rintro (founds | ⟨same, -⟩)
      · exact founds
      · omega
  · subst same
    simp
  · have old : r[place]? = none := List.getElem?_eq_none beyond.le
    have new : (r ++ [entry])[place]? = none := List.getElem?_eq_none (by simp; omega)
    simp [old, new, beyond.ne']

theorem Founds.lt {place : Nat} (founds : r.Founds name place) : place < r.length := by
  by_contra beyond
  have none : r[place]? = none := List.getElem?_eq_none (by omega)
  simp [Founds, none] at founds

theorem Founded.lt {place : Nat} (founded : r.Founded name place) : place < r.length :=
  Founds.lt founded.1

/-- A register that is made while there is none comes last. -/
theorem founded_new (made : makes name entry = true) (absent : recalls r name = none) {place : Nat} :
    (r ++ [entry]).Founded name place ↔ place = r.length := by
  have newest : (r ++ [entry]).Founds name r.length := (founds_concat _).mpr (.inr ⟨rfl, made, absent⟩)
  have bound : ∀ other, (r ++ [entry]).Founds name other → other ≤ r.length := by
    intro other founds
    have lt := founds.lt
    simp only [List.length_append, List.length_singleton] at lt
    omega
  constructor
  · intro founded
    have le := bound place founded.1
    have ge : r.length ≤ place := founded.2 newest
    omega
  · rintro rfl
    exact ⟨newest, bound⟩

/-- All other registers stay where they stand. -/
theorem founded_old (quiet : makes name entry = true → recalls r name ≠ none) {place : Nat} :
    (r ++ [entry]).Founded name place ↔ r.Founded name place := by
  have same : {place | (r ++ [entry]).Founds name place} = {place | r.Founds name place} := by
    ext other
    simp only [Set.mem_ofPred_eq, founds_concat, or_iff_left_iff_imp]
    rintro ⟨-, made, absent⟩
    exact absurd absent (quiet made)
  rw [Founded, Founded, same]

/-- Names in the order in which the record has them made while there was none. -/
structure Ranks (r : Record) (names : List String) : Prop where
  distinct : names.Nodup
  founded : ∀ name ∈ names, ∃ place, r.Founded name place
  ordered : names.Pairwise fun m n => ∀ i j, r.Founded m i → r.Founded n j → i < j

theorem ranks_nil : Ranks [] [] where
  distinct := List.nodup_nil
  founded name member := by cases member
  ordered := .nil

/-- Names keep their order if no register is made that was not there. -/
theorem Ranks.sublist {names left : List String} (ranks : r.Ranks names) (sub : left.Sublist names)
    (quiet : ∀ name, makes name entry = true → recalls r name ≠ none) :
    (r ++ [entry]).Ranks left where
  distinct := ranks.distinct.sublist sub
  founded name member := by
    obtain ⟨place, founded⟩ := ranks.founded name (sub.subset member)
    exact ⟨place, (founded_old (quiet name)).mpr founded⟩
  ordered := by
    apply (ranks.ordered.sublist sub).imp
    intro m n before i j first second
    exact before i j ((founded_old (quiet m)).mp first) ((founded_old (quiet n)).mp second)

/-- A register that is made while there is none is the last one. -/
theorem Ranks.append {names : List String} (ranks : r.Ranks names) (fresh : name ∉ names)
    (made : makes name entry = true) (absent : recalls r name = none) :
    (r ++ [entry]).Ranks (names ++ [name]) := by
  have quiet : ∀ other ∈ names, makes other entry = true → recalls r other ≠ none := by
    intro other member madeToo
    rw [makes_unique made madeToo] at fresh
    exact absurd member fresh
  constructor
  · simpa only [List.concat_eq_append] using List.Nodup.concat fresh ranks.distinct
  · intro other member
    rcases List.mem_append.mp member with old | last
    · obtain ⟨place, founded⟩ := ranks.founded other old
      exact ⟨place, (founded_old (quiet other old)).mpr founded⟩
    · rw [List.mem_singleton.mp last]
      exact ⟨r.length, (founded_new made absent).mpr rfl⟩
  · refine List.pairwise_append.mpr ⟨?_, List.pairwise_singleton .., ?_⟩
    · apply ranks.ordered.imp_of_mem
      intro m n one two before i j first second
      exact before i j ((founded_old (quiet m one)).mp first) ((founded_old (quiet n two)).mp second)
    · intro m old n last i j first second
      rw [List.mem_singleton.mp last, founded_new made absent] at second
      have lt := ((founded_old (quiet m old)).mp first).lt
      omega

end Record

/-- A bank is what its record says. -/
structure Recorded (r : Record) (b : Bank) : Prop where
  ranks : r.Ranks b.names
  held : ∀ name, b.find? name = r.recalls name

namespace Recorded

variable {r : Record} {b : Bank}

theorem recalls_none_iff (recorded : Recorded r b) (name : String) :
    r.recalls name = none ↔ name ∉ b.names := by
  rw [← recorded.held, find?, names, ← Table.find?_isSome_iff, Option.not_isSome_iff_eq_none]

/-- A call that leaves the bank as it is, and makes, deletes and sets nothing. -/
theorem unchanged (recorded : Recorded r b) {entry : Call × Answer}
    (unmade : ∀ name, Record.makes name entry = false)
    (kept : ∀ name, Record.deletes name entry = false)
    (unset : ∀ name, Record.sets? name entry = none) : Recorded (r ++ [entry]) b where
  ranks := by
    apply recorded.ranks.sublist (List.Sublist.refl _)
    intro name made
    rw [unmade] at made
    cases made
  held name := by
    rw [recorded.held, Record.recalls_other (unmade name) (kept name) (unset name)]

theorem failed (recorded : Recorded r b) (call : Call) (fault : Fault)
    (kept : ∀ name, Record.deletes name (call, .failed fault) = false) :
    Recorded (r ++ [(call, .failed fault)]) b := by
  apply recorded.unchanged
  · intro name
    cases call <;> rfl
  · exact kept
  · intro name
    cases call <;> rfl

theorem create (recorded : Recorded r b) (name : String) :
    Recorded (r ++ [(.create name, .done)]) ⟨b.registers.put name .null⟩ where
  ranks := by
    have made : Record.makes name (.create name, .done) = true := by simp [Record.makes]
    rw [names, Table.names_put]
    split
    · rename_i there
      apply recorded.ranks.sublist (List.Sublist.refl _)
      intro other madeToo
      rw [← Record.makes_unique made madeToo, ne_eq, recorded.recalls_none_iff]
      exact not_not.mpr there
    · rename_i absent
      exact recorded.ranks.append absent made ((recorded.recalls_none_iff name).mpr absent)
  held other := by
    rw [find?, Table.find?_put]
    split
    · rename_i same
      rw [Record.recalls_made (by simp [Record.makes, same])]
    · rename_i different
      have unmade : Record.makes other (.create name, .done) = false := by
        simp [Record.makes, Ne.symm different]
      rw [Record.recalls_other unmade rfl rfl]
      exact recorded.held other

theorem delete (recorded : Recorded r b) (name : String) (there : Bool) :
    Recorded (r ++ [(.delete name, .deleted there)]) (b.erase name) where
  ranks := by
    rw [names, erase, Table.names_erase]
    apply recorded.ranks.sublist List.erase_sublist
    intro other made
    cases made
  held other := by
    rw [erase, find?, Table.find?_erase recorded.ranks.distinct]
    split
    · rename_i same
      rw [Record.recalls_deleted rfl (by simp [Record.deletes, same])]
    · rename_i different
      have kept : Record.deletes other (.delete name, .deleted there) = false := by
        simp [Record.deletes, Ne.symm different]
      rw [Record.recalls_other rfl kept rfl]
      exact recorded.held other

theorem set (recorded : Recorded r b) (name : String) (value : Value) :
    Recorded (r ++ [(.set name value, .done)]) ⟨b.registers.replace name value⟩ where
  ranks := by
    rw [names, Table.names_replace]
    apply recorded.ranks.sublist (List.Sublist.refl _)
    intro other made
    cases made
  held other := by
    rw [find?, Table.find?_replace]
    split
    · rename_i same
      subst same
      have set : Record.sets? other (.set other value, .done) = some value := by simp [Record.sets?]
      rw [Record.recalls_set rfl rfl set, ← recorded.held]
      rfl
    · rename_i different
      have unset : Record.sets? other (.set name value, .done) = none := by
        simp [Record.sets?, Ne.symm different]
      rw [Record.recalls_other rfl rfl unset]
      exact recorded.held other

/-- Every call keeps the bank to its record. -/
theorem serve (recorded : Recorded r b) (call : Call) :
    Recorded (r ++ [(call, (b.serve call).2)]) (b.serve call).1 := by
  cases call with
  | create name =>
    rw [Bank.serve, Bank.create]
    cases Name.check name with
    | error fault => exact recorded.failed _ fault (fun _ => rfl)
    | ok => exact recorded.create name
  | delete name => exact recorded.delete name _
  | set name value =>
    rw [Bank.serve, Bank.set]
    split
    · exact recorded.set name value
    · exact recorded.failed _ _ (fun _ => rfl)
  | get name =>
    rw [Bank.serve]
    cases b.get name with
    | error fault => exact recorded.failed _ fault (fun _ => rfl)
    | ok value => exact recorded.unchanged (fun _ => rfl) (fun _ => rfl) (fun _ => rfl)
  | lookup name => exact recorded.unchanged (fun _ => rfl) (fun _ => rfl) (fun _ => rfl)

theorem after (recorded : Recorded r b) (calls : List Call) :
    Recorded (r ++ b.record calls) (b.after calls) := by
  induction calls generalizing r b with
  | nil => simpa [record, Bank.after] using recorded
  | cons call rest ih =>
    have next := ih (recorded.serve call)
    rw [List.append_assoc] at next
    exact next

end Recorded

/-- The registers `rg0` to `rg9` as made before all calls. -/
def opening : Record := (List.range 10).map fun n => (.create ("rg" ++ toString n), .done)

theorem recorded_initial : Recorded opening initial := by
  have empty : Recorded [] ⟨[]⟩ := ⟨Record.ranks_nil, fun _ => rfl⟩
  exact empty.after ((List.range 10).map fun n => .create ("rg" ++ toString n))

/-- When calls fail, and what they do to the names. -/
structure Regular (b : Bank) : Prop where
  create : ∀ name, (b.serve (.create name)).2.isFailure = true ↔ Name.isValid name = false
  get : ∀ name, (b.serve (.get name)).2.isFailure = true ↔ name ∉ b.names
  set : ∀ name value, (b.serve (.set name value)).2.isFailure = true ↔ name ∉ b.names
  unchanged : ∀ call, (b.serve call).2.isFailure = true → (b.serve call).1 = b
  deleted : ∀ name, (b.serve (.delete name)).2 = .deleted (decide (name ∈ b.names))
  others : ∀ name, (b.serve (.delete name)).1.names = b.names.erase name
  remade : ∀ name ∈ b.names, (b.serve (.create name)).1.names = b.names
  moved : ∀ name, Name.isValid name = true →
    ((b.serve (.delete name)).1.serve (.create name)).1.names = b.names.erase name ++ [name]

theorem contains_iff (b : Bank) (name : String) : b.contains name = true ↔ name ∈ b.names :=
  b.registers.find?_isSome_iff name

theorem serve_create {b : Bank} {name : String} (valid : Name.isValid name = true) :
    b.serve (.create name) = (⟨b.registers.put name .null⟩, .done) := by
  rw [serve, create, (Name.check_eq_ok_iff name).mpr valid]
  rfl

theorem regular {b : Bank} (distinct : b.names.Nodup) : Regular b where
  create name := by
    rw [← Bool.not_eq_true, ← Name.check_eq_ok_iff, serve, Bank.create]
    cases Name.check name with
    | error fault => simp [Except.map, settle, Answer.isFailure]
    | ok => simp [Except.map, settle, Answer.isFailure]
  get name := by
    rw [← contains_iff, serve, Bank.get, contains, Table.contains, find?]
    cases b.registers.find? name with
    | none => simp [Answer.isFailure]
    | some value => simp [Answer.isFailure]
  set name value := by
    rw [← contains_iff, serve, Bank.set]
    split
    · rename_i there
      simp [settle, Answer.isFailure, there]
    · rename_i absent
      simp [settle, Answer.isFailure, absent]
  unchanged call := by
    intro fails
    cases call with
    | create name =>
      rw [serve] at fails ⊢
      cases created : b.create name with
      | error fault => rfl
      | ok next =>
        rw [created] at fails
        cases fails
    | set name value =>
      rw [serve] at fails ⊢
      cases done : b.set name value with
      | error fault => rfl
      | ok next =>
        rw [done] at fails
        cases fails
    | delete name => cases fails
    | get | lookup => rfl
  deleted name := by
    rw [serve, delete]
    simp only [Answer.deleted.injEq]
    rw [Bool.eq_iff_iff, contains_iff, decide_eq_true_iff]
  others name := b.registers.names_erase name
  remade name there := by
    by_cases valid : Name.isValid name = true
    · rw [serve_create valid, names, Table.names_put]
      exact if_pos there
    · rw [← Name.check_eq_ok_iff] at valid
      rw [serve, Bank.create]
      cases checked : Name.check name with
      | error fault => rfl
      | ok => exact absurd checked valid
  moved name valid := by
    have gone : name ∉ b.names.erase name := distinct.not_mem_erase
    have left : (b.erase name).names = b.names.erase name := b.registers.names_erase name
    rw [serve_create valid, names, Table.names_put]
    change (if name ∈ (b.erase name).names then _ else (b.erase name).names ++ [name]) = _
    rw [left, if_neg gone]

/-- The bank is what its history says. After any calls on the first bank, with `rg0` to `rg9` counted
as made at the start, the names are distinct and stand in the order in which they were made last while
there was none of that name, and each register holds what was set last since it was made last. A
register can be made unless its name is no name, it can be read and set if and only if it is there, and
a call that fails changes nothing. -/
theorem after_recorded (calls : List Call) :
    Recorded (opening ++ initial.record calls) (initial.after calls) ∧
      Regular (initial.after calls) := by
  have recorded := recorded_initial.after calls
  exact ⟨recorded, regular recorded.ranks.distinct⟩

example :
    (initial.after [.create "a", .delete "rg3", .create "rg3", .create "a"]).names =
      ["rg0", "rg1", "rg2", "rg4", "rg5", "rg6", "rg7", "rg8", "rg9", "a", "rg3"] := by
  decide +kernel

end RegisterMachine.Bank
