import RegisterMachine.Proofs.Objects
import RegisterMachine.Proofs.Placement
import RegisterMachine.Proofs.Registers
import RegisterMachine.Proofs.Warnings

/-!
The keys of objects. In a document that is read no object has a key twice, at any depth
(`Json.parse_keyed`), so none has in what an operand stands for (`Operand.resolve_keyed`), nor in what
the registers hold during a run (`Session.walk_keyed`).
-/

namespace RegisterMachine

namespace Table

variable {α : Type} {P : α → Prop}

/-- What holds of all values goes on to hold if it holds of a new one. -/
theorem all_put {t : Table α} (all : ∀ entry ∈ t, P entry.2) (name : String) {value : α}
    (new : P value) : ∀ entry ∈ t.put name value, P entry.2 := by
  induction t with
  | nil => simpa [put] using new
  | cons entry rest ih =>
    obtain ⟨first, others⟩ := List.forall_mem_cons.mp all
    rw [put]
    split
    · exact List.forall_mem_cons.mpr ⟨new, others⟩
    · exact List.forall_mem_cons.mpr ⟨first, ih others⟩

theorem all_replace {t : Table α} (all : ∀ entry ∈ t, P entry.2) (name : String) {value : α}
    (new : P value) : ∀ entry ∈ t.replace name value, P entry.2 := by
  induction t with
  | nil => exact all
  | cons entry rest ih =>
    obtain ⟨first, others⟩ := List.forall_mem_cons.mp all
    rw [replace]
    split
    · exact List.forall_mem_cons.mpr ⟨new, others⟩
    · exact List.forall_mem_cons.mpr ⟨first, ih others⟩

theorem all_erase {t : Table α} (all : ∀ entry ∈ t, P entry.2) (name : String) :
    ∀ entry ∈ t.erase name, P entry.2 := by
  induction t with
  | nil => exact all
  | cons entry rest ih =>
    obtain ⟨first, others⟩ := List.forall_mem_cons.mp all
    rw [erase]
    split
    · exact others
    · exact List.forall_mem_cons.mpr ⟨first, ih others⟩

end Table

namespace Json

/-- No object in a document has a key twice. -/
inductive Keyed : Json → Prop where
  | null : Keyed .null
  | boolean (b : Bool) : Keyed (.boolean b)
  | number (n : JsonNumber) : Keyed (.number n)
  | string (s : String) : Keyed (.string s)
  | array {items : List Json} (all : ∀ item ∈ items, Keyed item) : Keyed (.array items)
  | object {fields : Table Json} (distinct : fields.names.Nodup)
      (all : ∀ field ∈ fields, Keyed field.2) : Keyed (.object fields)

/-- A reader of documents without a key that comes twice. -/
def Keying (read : List Char → Reading Json) : Prop :=
  ∀ cs v rest, read cs = .ok (v, rest) → v.Keyed

theorem readScalar_keyed : Keying readScalar := by
  intro cs v rest read
  unfold readScalar at read
  split at read
  case h_1 => cases read
  case h_7 =>
    split at read
    · obtain ⟨_, _, _, same⟩ := map_ok read
      cases same
      exact .number _
    · cases read
  all_goals
    obtain ⟨_, _, _, same⟩ := map_ok read
    cases same
    constructor

section Nested
variable {item : List Char → Reading Json} (keying : Keying item)
include keying

theorem readItems_keyed {bound : Nat} {seen items : List Json} {cs rest : List Char}
    (before : ∀ v ∈ seen, v.Keyed) (read : readItems item bound seen cs = .ok (items, rest)) :
    ∀ v ∈ items, v.Keyed := by
  induction bound generalizing seen cs with
  | zero => cases read
  | succ bound ih =>
    unfold readItems at read
    split at read
    · cases read
    · cases read
      intro v member
      exact before v (List.mem_reverse.mp member)
    · split at read
      · cases read
      · cases read
      · split at read
        · cases read
        · rename_i one
          exact ih (List.forall_mem_cons.mpr ⟨keying _ _ _ one, before⟩) read
    · cases read

theorem readArray_keyed {items : List Json} {cs rest : List Char}
    (read : readArray item cs = .ok (items, rest)) : ∀ v ∈ items, v.Keyed := by
  unfold readArray at read
  split at read
  · cases read
  · cases read
    intro v member
    cases member
  · split at read
    · cases read
    · rename_i one
      exact readItems_keyed keying (List.forall_mem_singleton.mpr (keying _ _ _ one)) read

theorem readField_keyed {field : String × Json} {cs rest : List Char}
    (read : readField item cs = .ok (field, rest)) : field.2.Keyed := by
  unfold readField at read
  split at read
  · cases read
  · split at read
    · cases read
    · obtain ⟨_, _, value, same⟩ := map_ok read
      cases same
      exact keying _ _ _ value
    · cases read

/-- A key that comes again takes the place of the one before. -/
theorem readFields_keyed {bound : Nat} {seen fields : Table Json} {cs rest : List Char}
    (distinct : seen.names.Nodup) (before : ∀ field ∈ seen, field.2.Keyed)
    (read : readFields item bound seen cs = .ok (fields, rest)) : (Json.object fields).Keyed := by
  induction bound generalizing seen cs with
  | zero => cases read
  | succ bound ih =>
    unfold readFields at read
    split at read
    · cases read
    · cases read
      exact .object distinct before
    · split at read
      · cases read
      · cases read
      · split at read
        · cases read
        · rename_i field
          exact ih (Table.nodup_put distinct _ _)
            (Table.all_put before _ (readField_keyed keying field)) read
      · cases read
    · cases read

theorem readObject_keyed {fields : Table Json} {cs rest : List Char}
    (read : readObject item cs = .ok (fields, rest)) : (Json.object fields).Keyed := by
  unfold readObject at read
  split at read
  · cases read
  · cases read
    exact .object List.nodup_nil (fun _ member => by cases member)
  · split at read
    · cases read
    · rename_i key v after field
      have distinct : (Table.names [(key, v)]).Nodup := List.pairwise_singleton ..
      exact readFields_keyed keying distinct
        (List.forall_mem_singleton.mpr (readField_keyed keying field)) read
  · cases read

end Nested

theorem readValue_keyed (depth : Nat) : Keying (readValue depth) := by
  induction depth with
  | zero =>
    intro cs v rest read
    unfold readValue at read
    split at read
    · cases read
    · cases read
    · exact readScalar_keyed _ _ _ read
  | succ depth ih =>
    intro cs v rest read
    unfold readValue at read
    split at read
    · obtain ⟨_, _, items, same⟩ := map_ok read
      cases same
      exact .array (readArray_keyed ih items)
    · obtain ⟨_, _, fields, same⟩ := map_ok read
      cases same
      exact readObject_keyed ih fields
    · exact readScalar_keyed _ _ _ read

theorem parse_keyed {cs : List Char} {v : Json} (parsed : parse cs = .ok v) : v.Keyed := by
  unfold parse at parsed
  split at parsed
  · cases parsed
  · rename_i read
    split at parsed
    · cases parsed
      exact readValue_keyed _ _ _ _ read
    · cases parsed

end Json

namespace Value

def Keyed (v : Value) : Prop := v.toJson.Keyed

/-- Neither an array nor an object. -/
def isScalar : Value → Bool
  | array _ | object _ => false
  | _ => true

/-- What stands at an index of an array or under a key of an object, as it was read. -/
def item? (name : String) : Value → Option Json
  | array items => (readIndex? name).bind fun index => items[index]?
  | object fields => fields.find? name
  | _ => none

theorem field?_eq (v : Value) (name : String) : v.field? name = (v.item? name).map ofJson := by
  cases v with
  | null | number | boolean | string | object => rfl
  | array items =>
    simp only [field?, item?]
    cases readIndex? name with
    | none => rfl
    | some index => rfl

theorem keyed_scalar {v : Value} (plain : v.isScalar = true) : v.Keyed := by
  cases v with
  | array | object => cases plain
  | null | number | boolean | string => constructor

theorem keyed_ofJson {v : Json} (keyed : v.Keyed) : (ofJson v).Keyed := by
  cases v with
  | number n => exact .number _
  | null | boolean | string | array | object => exact keyed

theorem keyed_item {v : Value} {name : String} {x : Json} (keyed : v.Keyed)
    (found : v.item? name = some x) : x.Keyed := by
  cases v with
  | null | number | boolean | string => cases found
  | array items =>
    cases keyed with
    | array all =>
      obtain ⟨index, _, held⟩ := Option.bind_eq_some_iff.mp found
      exact all x (List.mem_of_getElem? held)
  | object fields =>
    cases keyed with
    | object _ all => exact all _ (Table.mem_of_find? found)

theorem scalar_reverse (v : Value) : v.reverse.isScalar = true := by
  cases v <;> rfl

end Value

theorem Arithmetic.apply_scalar {op : Arithmetic} {x y v : Value} (applied : op.apply x y = .ok v) :
    v.isScalar = true := by
  unfold apply at applied
  split at applied
  · cases computed : op.onNumbers _ _ with
    | error fault =>
      rw [computed] at applied
      cases applied
    | ok z =>
      rw [computed] at applied
      cases applied
      rfl
  · cases applied

theorem Count.apply_scalar {c : Count} {register : String} {x v : Value}
    (applied : c.apply register x = .ok v) : v.isScalar = true := by
  unfold apply at applied
  split at applied
  · cases applied
  · cases c <;> cases applied <;> rfl

namespace Bank

/-- No register holds an object that has a key twice. -/
def Keyed (b : Bank) : Prop := ∀ entry ∈ b.registers, entry.2.Keyed

theorem keyed_initial : initial.Keyed := by
  intro entry member
  obtain ⟨n, _, rfl⟩ := List.mem_map.mp member
  exact .null

theorem keyed_find {b : Bank} (keyed : b.Keyed) {name : String} {v : Value}
    (found : b.find? name = some v) : v.Keyed :=
  keyed _ (Table.mem_of_find? found)

theorem keyed_set {b b' : Bank} (keyed : b.Keyed) {name : String} {v : Value} (new : v.Keyed)
    (set : b.set name v = .ok b') : b'.Keyed := by
  rw [eq_of_set set]
  exact Table.all_replace keyed name new

theorem keyed_create {b b' : Bank} (keyed : b.Keyed) {name : String}
    (created : b.create name = .ok b') : b'.Keyed := by
  rw [(eq_of_create created).2]
  exact Table.all_put keyed name .null

end Bank

namespace Operand

theorem follow_keyed {source parent : String} {v w : Value} {path : List String} (keyed : v.Keyed)
    (followed : follow source parent v path = .ok w) : w.Keyed := by
  induction path generalizing parent v with
  | nil =>
    cases followed
    exact keyed
  | cons segment path ih =>
    unfold follow at followed
    split at followed
    · rename_i w found
      rw [Value.field?_eq] at found
      obtain ⟨item, held, rfl⟩ := Option.map_eq_some_iff.mp found
      exact ih (Value.keyed_ofJson (Value.keyed_item keyed held)) followed
    · cases followed

theorem resolvePath_keyed {source : String} {bank : Bank} {v : Value} (keyed : bank.Keyed)
    (resolved : resolvePath source bank = .ok v) : v.Keyed := by
  unfold resolvePath at resolved
  dsimp only at resolved
  split at resolved
  · cases resolved
  · rename_i held found
    cases followed : follow source _ held _ with
    | error fault =>
      rw [followed] at resolved
      cases resolved
    | ok w =>
      rw [followed] at resolved
      simp only [bind, Except.bind] at resolved
      split at resolved
      · cases resolved
      · cases resolved
        exact follow_keyed (Bank.keyed_find keyed found) followed

theorem resolve_keyed {source : String} {bank : Bank} {v : Value} (keyed : bank.Keyed)
    (resolved : (resolve source bank).result = .ok v) : v.Keyed := by
  unfold resolve at resolved
  split at resolved
  · cases resolved
    exact .string _
  · split at resolved
    · cases resolved
      exact .number _
    · split at resolved
      · cases resolved
        exact .boolean _
      · split at resolved
        · cases resolved
          exact .boolean _
        · split at resolved
          · split at resolved
            · rename_i parsed
              cases resolved
              exact Value.keyed_ofJson (Json.parse_keyed parsed)
            · cases resolved
              exact .null
          · exact resolvePath_keyed keyed resolved

end Operand

namespace Machine

/-- What an instruction that does not fail does to the registers. What it puts into one is what an
operand stands for, or neither an array nor an object. -/
inductive Stores (m : Machine) : Bank → Prop where
  | same : Stores m m.bank
  | read {source target : String} {v : Value} {bank : Bank}
      (resolved : (Operand.resolve source m.bank).result = .ok v)
      (set : m.bank.set target v = .ok bank) : Stores m bank
  | scalar {target : String} {v : Value} {bank : Bank} (plain : v.isScalar = true)
      (set : m.bank.set target v = .ok bank) : Stores m bank
  | create {register : String} {bank : Bank} (created : m.bank.create register = .ok bank) :
      Stores m bank
  | erase (register : String) : Stores m (m.bank.erase register)

theorem jump_stores {m next : Machine} {address : Nat}
    (jumped : (m.jump address).result = .ok next) : m.Stores next.bank := by
  unfold jump at jumped
  split at jumped <;> cases jumped <;> exact .same

theorem perform_stores {m next : Machine} {line : Line} {i : Instruction} {own : List Event}
    (done : (m.perform line i).result = .ok (next, own)) : m.Stores next.bank := by
  cases i <;> simp only [perform, Attempt.bind_ok, Attempt.result_lift, Attempt.result_pure,
    Attempt.result_note] at done
  case move =>
    obtain ⟨_, _, v, resolved, bank, set, same⟩ := done
    cases same
    exact .read resolved set
  case count =>
    obtain ⟨_, _, v, counted, bank, set, same⟩ := done
    cases same
    exact .scalar (Count.apply_scalar counted) set
  case reverse =>
    obtain ⟨v, _, bank, set, same⟩ := done
    cases same
    exact .scalar v.scalar_reverse set
  case create =>
    obtain ⟨bank, created, same⟩ := done
    cases same
    exact .create created
  case erase =>
    cases done
    exact .erase _
  case compare =>
    obtain ⟨_, _, _, _, _, _, bank, set, same⟩ := done
    cases same
    exact .scalar rfl set
  case compute =>
    obtain ⟨_, _, _, _, _, _, v, applied, bank, set, same⟩ := done
    cases same
    exact .scalar (Arithmetic.apply_scalar applied) set
  case print | dumpValue =>
    obtain ⟨_, _, same⟩ := done
    cases same
    exact .same
  case dumpBank | dumpFrames | traceFrames | mark =>
    cases done
    exact .same
  case jump =>
    obtain ⟨_, _, moved, jumped, same⟩ := done
    cases same
    exact jump_stores jumped
  case jumpIf =>
    obtain ⟨_, _, condition, _, more⟩ := done
    split at more
    · simp only [Attempt.bind_ok, Attempt.result_pure] at more
      obtain ⟨moved, jumped, same⟩ := more
      cases same
      exact jump_stores jumped
    · cases more
      exact .same
  case call =>
    obtain ⟨_, _, entered, pushed, same⟩ := done
    cases same
    simp only [enter, Attempt.bind_ok, Attempt.result_lift, Attempt.result_pure,
      Attempt.result_note] at pushed
    obtain ⟨_, _, _, _, same⟩ := pushed
    cases same
    exact .same
  case launch =>
    obtain ⟨_, _, _, _, same⟩ := done
    cases same
    exact .same
  case sleep =>
    obtain ⟨_, _, more⟩ := done
    split at more <;> cases more
    exact .same
  case exit source =>
    cases source with
    | none =>
      cases done
      exact .same
    | some source =>
      simp only [Attempt.bind_ok, Attempt.result_pure] at done
      obtain ⟨_, _, same⟩ := done
      cases same
      exact .same

theorem Stores.keyed {m : Machine} {bank : Bank} (stores : m.Stores bank) (keyed : m.bank.Keyed) :
    bank.Keyed := by
  cases stores with
  | same => exact keyed
  | read resolved set => exact Bank.keyed_set keyed (Operand.resolve_keyed keyed resolved) set
  | scalar plain set => exact Bank.keyed_set keyed (Value.keyed_scalar plain) set
  | create created => exact Bank.keyed_create keyed created
  | erase register => exact Table.all_erase keyed register

theorem Stores.of_reading {m : Machine} {line : Line} {bank : Bank}
    (stores : (m.reading line).Stores bank) : m.Stores bank := by
  cases stores with
  | same => exact .same
  | read resolved set => exact .read resolved set
  | scalar plain set => exact .scalar plain set
  | create created => exact .create created
  | erase register => exact .erase register

theorem step_stores (m : Machine) : m.Stores m.step.machine.bank := by
  cases fetched : m.next? with
  | some line =>
    have raises := step_raises fetched
    generalize m.step.machine = next, m.step.events = events at raises
    cases raises with
    | refused | failed => exact .same
    | done i next own decoded performed gives => exact (perform_stores performed).of_reading
  | none =>
    -- Without a line to carry out, the step only moves on.
    have moved := step_move m
    generalize m.step.machine = next, m.step.events = events at moved
    cases moved with
    | skip | back | leave | finish => exact .same
    | fail line fault found | run line i next own found =>
      rw [fetched] at found
      cases found

/-- What instructions keep of the registers is kept by a run. -/
theorem walk_keeps {P : Bank → Prop}
    (kept : ∀ {m : Machine} {bank : Bank}, m.Stores bank → P m.bank → P bank) {m : Machine}
    (start : P m.bank) (n : Nat) : P (m.walk n).bank := by
  induction n with
  | zero => exact start
  | succ n ih =>
    rw [walk]
    split
    · exact kept (step_stores _) ih
    · exact ih

end Machine

namespace Session

variable {source : String} {entry : Option String} {s : Session}

theorem load_bank (loaded : (load source entry).2 = .ok s) : s.machine.bank = .initial := by
  rcases load_machine loaded with ⟨_, start⟩ | ⟨function, _, started⟩
  · rw [start]
    rfl
  · unfold Machine.startAt at started
    split at started
    · cases started
    · simp only [Machine.enter, Attempt.bind_ok, Attempt.result_lift, Attempt.result_pure,
        Attempt.result_note] at started
      obtain ⟨_, _, _, _, same⟩ := started
      rw [← Except.ok.inj same]
      rfl

/-- Wherever the run of a program is, no register holds an object that has a key twice. -/
theorem walk_keyed (loaded : (load source entry).2 = .ok s) (n : Nat) :
    (s.machine.walk n).bank.Keyed := by
  apply Machine.walk_keeps Machine.Stores.keyed
  rw [load_bank loaded]
  exact Bank.keyed_initial

end Session

end RegisterMachine
