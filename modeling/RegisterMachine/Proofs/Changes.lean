import RegisterMachine.Proofs.InPlace
import RegisterMachine.Proofs.Registers
import RegisterMachine.Proofs.Returns
import RegisterMachine.Proofs.Warnings

/-!
What one line changes. A line that fails leaves the registers, the calls and the jump put off as they
were, also when it is done in place. One that does not fail changes no register but the one that an
operand of it names as the target; only a call changes the calls, and only a jump that is taken the
jump put off (`Machine.step_changes`).
-/

namespace RegisterMachine

namespace Table

variable {α : Type}

/-- All entries but those of one name. -/
def without (t : Table α) (name : String) : Table α := t.filter fun entry => entry.1 ≠ name

/-- What is done under a name leaves the entries of the other names as they are, in their order. -/
theorem without_kept (t : Table α) (name : String) (value : α) :
    (t.replace name value).without name = t.without name ∧
      (t.put name value).without name = t.without name ∧
      (t.erase name).without name = t.without name := by
  induction t with
  | nil => simp [replace, put, erase, without]
  | cons entry rest ih =>
    obtain ⟨key, old⟩ := entry
    by_cases same : key = name
    · simp [replace, put, erase, without, same]
    · simpa [replace, put, erase, without, same] using ih

end Table

namespace Bank

/-- The registers with their values, in order: all of them, or all but the one of a name. -/
def rest (b : Bank) : Option String → Table Value
  | none => b.registers
  | some name => b.registers.without name

theorem set_rest {b b' : Bank} {name : String} {value : Value} (set : b.set name value = .ok b') :
    b'.rest (some name) = b.rest (some name) := by
  rw [eq_of_set set]
  exact (b.registers.without_kept name value).1

theorem create_rest {b b' : Bank} {name : String} (created : b.create name = .ok b') :
    b'.rest (some name) = b.rest (some name) := by
  rw [(eq_of_create created).2]
  exact (b.registers.without_kept name .null).2.1

theorem erase_rest (b : Bank) (name : String) :
    (b.erase name).rest (some name) = b.rest (some name) :=
  (b.registers.without_kept name .null).2.2

end Bank

/-- The register that an instruction changes if it does not fail. -/
def Instruction.target? : Instruction → Option String
  | .move target _ | .compare _ _ target | .compute _ _ _ target => some target
  | .create register | .erase register | .count _ register | .reverse register => some register
  | _ => none

/-- The operand of a line that names the register to change: the first one, or the third one where two
values are combined. -/
def Line.target? (line : Line) : Option String :=
  match Opcode.ofCommand? line.command with
  | some .mov | some .newReg | some .delReg | some .inc | some .dec | some .rev => line.operands[0]?
  | some .cmp | some .add | some .sub | some .mult | some .div | some .pow | some .mod =>
    line.operands[2]?
  | _ => none

namespace Instruction

theorem decode_target {line : Line} {i : Instruction} (decoded : decode line = .ok i) :
    line.target? = i.target? := by
  obtain ⟨opcode, command, found⟩ := decode_ok decoded
  unfold ofOpcode? at found
  split at found <;> cases found <;> simp_all [Line.target?, target?]

end Instruction

namespace Machine

theorem jump_bank {m next : Machine} {address : Nat} (jumped : (m.jump address).result = .ok next) :
    next.bank = m.bank := by
  unfold jump at jumped
  split at jumped <;> cases jumped <;> rfl

theorem perform_rest {m next : Machine} {line : Line} {i : Instruction} {own : List Event}
    (done : (m.perform line i).result = .ok (next, own)) :
    next.bank.rest i.target? = m.bank.rest i.target? := by
  cases i <;> simp only [perform, Attempt.bind_ok, Attempt.result_lift, Attempt.result_pure,
    Attempt.result_note] at done
  case move | count =>
    obtain ⟨_, _, _, _, bank, set, same⟩ := done
    cases same
    exact Bank.set_rest set
  case reverse =>
    obtain ⟨_, _, bank, set, same⟩ := done
    cases same
    exact Bank.set_rest set
  case create =>
    obtain ⟨bank, created, same⟩ := done
    cases same
    exact Bank.create_rest created
  case erase =>
    cases done
    exact Bank.erase_rest _ _
  case compare =>
    obtain ⟨_, _, _, _, _, _, bank, set, same⟩ := done
    cases same
    exact Bank.set_rest set
  case compute =>
    obtain ⟨_, _, _, _, _, _, _, _, bank, set, same⟩ := done
    cases same
    exact Bank.set_rest set
  case print | dumpValue =>
    obtain ⟨_, _, same⟩ := done
    cases same
    rfl
  case dumpBank | dumpFrames | traceFrames | mark =>
    cases done
    rfl
  case jump =>
    obtain ⟨_, _, moved, jumped, same⟩ := done
    cases same
    rw [jump_bank jumped]
  case jumpIf =>
    obtain ⟨_, _, condition, _, more⟩ := done
    split at more
    · simp only [Attempt.bind_ok, Attempt.result_pure] at more
      obtain ⟨moved, jumped, same⟩ := more
      cases same
      rw [jump_bank jumped]
    · cases more
      rfl
  case call =>
    obtain ⟨_, _, entered, pushed, same⟩ := done
    cases same
    simp only [enter, Attempt.bind_ok, Attempt.result_lift, Attempt.result_pure,
      Attempt.result_note] at pushed
    obtain ⟨_, _, _, _, same⟩ := pushed
    cases same
    rfl
  case launch =>
    obtain ⟨_, _, _, _, same⟩ := done
    cases same
    rfl
  case sleep =>
    obtain ⟨_, _, more⟩ := done
    split at more <;> cases more
    rfl
  case exit source =>
    cases source with
    | none =>
      cases done
      rfl
    | some source =>
      simp only [Attempt.bind_ok, Attempt.result_pure] at done
      obtain ⟨_, _, same⟩ := done
      cases same
      rfl

end Machine

/-- Tells of a failure. -/
def Event.isError : Event → Bool
  | .error _ => true
  | _ => false

namespace Machine

/-- Whether the next step fails. -/
def fails (m : Machine) : Bool := m.step.events.any Event.isError

/-- What a line may change that does not fail. -/
structure Changes (m : Machine) (line : Line) (next : Machine) : Prop where
  bank : next.bank.rest line.target? = m.bank.rest line.target?
  stack : Opcode.ofCommand? line.command ≠ some .call → next.stack = m.stack
  detour : m.jumps? = none → next.detour = m.detour

/-- A line that is done raises no error. -/
theorem done_calm {line : Line} {i : Instruction} {read : List String} {own : List Event}
    (gives : i.Gives own) : (line.complaints read ++ own).any Event.isError = false := by
  rw [List.any_append, Bool.or_eq_false_iff, List.any_eq_false, List.any_eq_false]
  constructor
  · intro event complained
    obtain ⟨_, rfl, _⟩ := Line.complaints_kind complained
    exact Bool.false_ne_true
  · refine gives.all (P := fun event => ¬ event.isError = true) ?_ ?_ ?_ ?_ ?_ <;> intros <;>
      exact Bool.false_ne_true

theorem Effect.changes {m next : Machine} {line : Line} {i : Instruction}
    (effect : (m.reading line).Effect line i next) (fetched : m.next? = some line)
    (decoded : Instruction.decode line = .ok i)
    (rest : next.bank.rest i.target? = m.bank.rest i.target?) : m.Changes line next := by
  have jumps := jumps?_run fetched decoded
  refine ⟨Instruction.decode_target decoded ▸ rest, ?_, ?_⟩
  · intro other
    cases effect with
    | work | goto | defer | exit => rfl
    | call => exact absurd (And.left (Instruction.decode_written decoded)) other
  · intro stays
    cases effect with
    | work | goto | call | exit => rfl
    | defer target taken =>
      rw [jumps] at stays
      cases stays.symm.trans taken

/-- A line that fails changes no register, no call and no jump put off, and one that does not fail
changes only its target, only for a call the calls, and only for a jump that is taken the jump put
off. Done in place, the line does the same. -/
theorem step_changes {m : Machine} {line : Line} (fetched : m.next? = some line) :
    m.step = (m.reading line).dispatchInPlace line ∧
      (m.fails = true → m.step.machine.bank = m.bank ∧ m.step.machine.stack = m.stack ∧
        m.step.machine.detour = m.detour) ∧
      (m.fails = false → m.Changes line m.step.machine) := by
  refine ⟨by rw [dispatchInPlace_eq, step_next fetched], ?_⟩
  have raises := step_raises fetched
  unfold fails
  generalize m.step.machine = next, m.step.events = events at raises
  cases raises with
  | refused fault => exact ⟨fun _ => ⟨rfl, rfl, rfl⟩, fun calm => by cases calm⟩
  | failed i fault read =>
    refine ⟨fun _ => ⟨rfl, rfl, rfl⟩, fun calm => ?_⟩
    simp [Event.isError] at calm
  | done i next own decoded performed gives =>
    refine ⟨fun loud => ?_, fun _ => ?_⟩
    · rw [done_calm gives] at loud
      cases loud
    · have rest := perform_rest (m := m.reading line) performed
      exact (perform_effect performed).1.changes fetched decoded rest

/-- A line that sets a register, and one that fails on what the register holds then. -/
theorem step_changes_counting :
    ∃ s, (Session.load "mov rg0 \"a\"\ninc rg0" none).2 = .ok s ∧
      s.machine.Changes ⟨1, "mov rg0 \"a\"", "mov", ["rg0", "\"a\""]⟩ s.machine.step.machine ∧
      let m := s.machine.walk 1
      m.fails = true ∧ m.step = (m.reading ⟨2, "inc rg0", "inc", ["rg0"]⟩).dispatchInPlace
        ⟨2, "inc rg0", "inc", ["rg0"]⟩ ∧ m.step.machine.bank = m.bank := by
  obtain ⟨s, loaded, computed⟩ := Session.loaded_with "mov rg0 \"a\"\ninc rg0" none
    (fun s => (s.machine.next?, s.machine.fails, (s.machine.walk 1).next?, (s.machine.walk 1).fails))
    (some ⟨1, "mov rg0 \"a\"", "mov", ["rg0", "\"a\""]⟩, false,
      some ⟨2, "inc rg0", "inc", ["rg0"]⟩, true) (by decide +kernel)
  simp only [Prod.mk.injEq] at computed
  obtain ⟨first, succeeds, second, fails⟩ := computed
  exact ⟨s, loaded, (step_changes first).2.2 succeeds, fails, (step_changes second).1,
    ((step_changes second).2.1 fails).1⟩

end Machine

end RegisterMachine
