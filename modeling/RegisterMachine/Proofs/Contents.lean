import RegisterMachine.Proofs.Cells
import RegisterMachine.Proofs.Documents

/-!
What the registers are during a run. Their names are distinct and valid (`Bank.WellNamed`), as every
instruction leaves them so. They could be kept as cells, where a structure may be any document: then too
only arrays and objects are kept as structures, shown and read (`RigSession.Proper`), and what a scalar
would count as in their place is never asked.
-/

namespace RegisterMachine

namespace Bank

/-- No name is there twice, and each could be created. -/
structure WellNamed (b : Bank) : Prop where
  distinct : b.names.Nodup
  valid : ∀ name ∈ b.names, Name.check name = .ok ()

theorem wellNamed_initial : initial.WellNamed where
  distinct := by decide +kernel
  valid := by decide +kernel

variable {b b' : Bank} {name : String}

theorem WellNamed.set (named : b.WellNamed) {v : Value} (set : b.set name v = .ok b') :
    b'.WellNamed := by
  have same : b'.names = b.names := by
    rw [eq_of_set set]
    exact b.registers.names_replace name v
  constructor
  · rw [same]
    exact named.distinct
  · rw [same]
    exact named.valid

theorem WellNamed.create (named : b.WellNamed) (created : b.create name = .ok b') :
    b'.WellNamed := by
  obtain ⟨checked, rfl⟩ := eq_of_create created
  constructor
  · exact Table.nodup_put named.distinct name .null
  · intro other member
    rw [names, Table.names_put] at member
    by_cases held : name ∈ b.registers.names
    · rw [if_pos held] at member
      exact named.valid other member
    · rw [if_neg held, List.mem_append, List.mem_singleton] at member
      cases member with
      | inl old => exact named.valid other old
      | inr new => rw [new, checked]

theorem WellNamed.erase (named : b.WellNamed) (name : String) : (b.erase name).WellNamed := by
  have left : (b.erase name).names = b.names.erase name := b.registers.names_erase name
  constructor
  · rw [left]
    exact named.distinct.erase name
  · intro other member
    rw [left] at member
    exact named.valid other (List.mem_of_mem_erase member)

end Bank

theorem Machine.Stores.wellNamed {m : Machine} {bank : Bank} (stores : m.Stores bank)
    (named : m.bank.WellNamed) : bank.WellNamed := by
  cases stores with
  | same => exact named
  | read _ set | scalar _ set => exact named.set set
  | create created => exact named.create created
  | erase register => exact named.erase register

theorem Table.proper_mapValues (t : Table Value) :
    ∀ entry ∈ t.mapValues Cell.ofValue, entry.2.Proper := by
  intro entry member
  obtain ⟨held, _, rfl⟩ := List.mem_map.mp member
  exact Cell.proper_ofValue held.2

theorem Sight.proper_ofEvent (e : Event) : (ofEvent e).Proper := by
  cases e with
  | inspect dump =>
    cases dump with
    | value v => exact Cell.proper_ofValue v
    | registers bank => exact bank.proper_mapValues
    | _ => trivial
  | _ => trivial

/-- Structures are arrays and objects: in the registers, in what is still to be shown, in what an
operand stands for and wherever a path leads. -/
structure RigSession.Proper (fallback : Fallback) (s : RigSession) : Prop where
  held : ∀ entry ∈ s.rig.cells, entry.2.Proper
  shown : ∀ sight ∈ s.pending, sight.Proper
  resolved : ∀ operand c, (Cells.resolve fallback operand s.rig.cells).result = .ok c → c.Proper
  reached : ∀ entry ∈ s.rig.cells, ∀ source parent path c,
    Cells.follow fallback source parent entry.2 path = .ok c → c.Proper

theorem Cell.proper_of_map {result : Except Fault Value} {c : Cell}
    (read : result.map ofValue = .ok c) : c.Proper := by
  cases result with
  | error fault => cases read
  | ok v =>
    cases read
    exact proper_ofValue v

theorem RigSession.proper_ofSession (fallback : Fallback) (s : Session) :
    (ofSession s).Proper fallback where
  held := s.machine.bank.registers.proper_mapValues
  shown := by
    intro sight member
    obtain ⟨event, _, rfl⟩ := List.mem_map.mp member
    exact Sight.proper_ofEvent event
  resolved := by
    intro operand c read
    have same := s.machine.bank.resolve_cells fallback operand
    exact Cell.proper_of_map (same ▸ read)
  reached := by
    intro entry member source parent path c read
    obtain ⟨held, _, rfl⟩ := List.mem_map.mp member
    exact Cell.proper_of_map (Bank.follow_cells fallback source parent held.2 path ▸ read)

namespace Session

variable {source : String} {entry : Option String} {s : Session}

theorem after_wellNamed (loaded : (load source entry).2 = .ok s) (requests : List Request) :
    (s.after requests).machine.bank.WellNamed := by
  have walked : (s.machine.walk (s.taken requests)).bank.WellNamed := by
    apply Machine.walk_keeps Machine.Stores.wellNamed
    rw [load_bank loaded]
    exact Bank.wellNamed_initial
  rcases s.after_machine requests with same | halted
  · rw [same]
    exact walked
  · rw [halted]
    exact walked

/-- Whatever is asked of the session of a loaded program, the names of its registers are distinct and
valid. If it kept its registers as cells, only arrays and objects would be structures among them, in what
it shows and in what is read from them; and whatever scalars counted as in their place, it would be in
the same state and give the same answers. -/
theorem after_wellFormed (loaded : (load source entry).2 = .ok s) (requests : List Request) :
    (s.after requests).machine.bank.WellNamed ∧ ∀ fallback,
      let loose := RigSession.ofSession s
      loose.after fallback requests = .ofSession (s.after requests) ∧
      loose.answers fallback requests = (s.answers requests).map Sight.ofEvent ∧
      (loose.after fallback requests).Proper fallback ∧
      ∀ sight ∈ loose.answers fallback requests, sight.Proper := by
  constructor
  · exact after_wellNamed loaded requests
  · intro fallback loose
    have state := RigSession.after_ofSession fallback s requests
    have replies := RigSession.answers_ofSession fallback s requests
    refine ⟨state, replies, ?_, ?_⟩
    · rw [state]
      exact RigSession.proper_ofSession fallback (s.after requests)
    · intro sight member
      rw [replies] at member
      obtain ⟨event, _, rfl⟩ := List.mem_map.mp member
      exact Sight.proper_ofEvent event

/-- A register is made, one is deleted, and an array out of an object is about to be shown. -/
theorem after_wellFormed_exit :
    let source := "mov rg0 \x7b\"a\": [1, \x7b\"b\": true\x7d]\x7d\n" ++
      "newreg x\nmov x rg0.a.1\ndelreg rg3\nexit rg0.a"
    let requests : List Request := [.execute 3, .execute 9, .interrupt]
    ∃ s, (load source none).2 = .ok s ∧
      let t := s.after requests
      t.machine.bank.names = ["rg0", "rg1", "rg2", "rg4", "rg5", "rg6", "rg7", "rg8", "rg9", "x"] ∧
      (t.machine.bank.find? "x").map Value.text = some "\x7b\"b\":true\x7d" ∧
      t.pending.length = 2 ∧ t.machine.bank.WellNamed ∧
      ∀ fallback, (RigSession.ofSession s).after fallback requests = .ofSession t ∧
        (RigSession.ofSession t).Proper fallback := by
  intro source requests
  obtain ⟨s, loaded, computed⟩ := loaded_with source none
    (fun s =>
      let t := s.after requests
      (t.machine.bank.names, (t.machine.bank.find? "x").map Value.text, t.pending.length))
    (["rg0", "rg1", "rg2", "rg4", "rg5", "rg6", "rg7", "rg8", "rg9", "x"],
      some "\x7b\"b\":true\x7d", 2)
    (by decide +kernel)
  simp only [Prod.mk.injEq] at computed
  obtain ⟨names, held, queued⟩ := computed
  obtain ⟨named, loose⟩ := after_wellFormed loaded requests
  refine ⟨s, loaded, names, held, queued, named, ?_⟩
  intro fallback
  obtain ⟨state, _, proper, _⟩ := loose fallback
  exact ⟨state, state ▸ proper⟩

end Session

end RegisterMachine
