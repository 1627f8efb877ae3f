import Mathlib.Algebra.Order.Ring.Nat
import RegisterMachine.Proofs.Endings
import RegisterMachine.Proofs.Placement

/-!
Programs without jumps end. What is left to do is the lines ahead of every active call, each line
counted as more than all that a call made from it could bring. Every step makes this less, since a
call leaves its line behind, and a call that finds no room ends the run (`Move.lightens`). So the run
is over after a number of steps that the length of the program bounds (`straight_ends`).
-/

namespace RegisterMachine

/-- No line jumps. -/
def Listing.Straight (l : Listing) : Prop :=
  ∀ line ∈ l, Opcode.ofCommand? line.command ≠ some .jmp ∧
    Opcode.ofCommand? line.command ≠ some .jmpCond

instance (l : Listing) : Decidable l.Straight :=
  inferInstanceAs (Decidable (∀ line ∈ l, Opcode.ofCommand? line.command ≠ some .jmp ∧
    Opcode.ofCommand? line.command ≠ some .jmpCond))

namespace Program

/-- What a line counts for that is carried out with this number of calls active. -/
def unit (p : Program) (depth : Nat) : Nat := (p.lines.size + 2) ^ (Machine.maxDepth - depth)

/-- What is left to do for active calls, the innermost first, from an address on. -/
def workload (p : Program) (address : Nat) : List Frame → Nat
  | [] => (p.lines.size + 2 - address) * p.unit 0
  | frame :: below =>
    (frame.close + 1 - address) * p.unit (below.length + 1) +
      match frame.returnTo with
      | some back => p.workload back below
      | none => 0

theorem unit_pos (p : Program) (depth : Nat) : 0 < p.unit depth := by
  apply Nat.pow_pos
  omega

theorem unit_deeper (p : Program) {depth : Nat} (room : depth < Machine.maxDepth) :
    p.unit depth = (p.lines.size + 2) * p.unit (depth + 1) := by
  have deeper : Machine.maxDepth - depth = Machine.maxDepth - (depth + 1) + 1 := by omega
  unfold unit
  rw [deeper, Nat.pow_succ, Nat.mul_comm]

theorem unit_le (p : Program) (depth : Nat) : p.unit depth ≤ p.unit 0 := by
  apply Nat.pow_le_pow_right
  · omega
  · omega

/-- Going on to the next line takes off what a line counts for. -/
theorem workload_next {p : Program} {address : Nat} {calls : List Frame}
    (outside : calls = [] → address ≤ p.lines.size + 1)
    (inside : ∀ frame ∈ calls.head?, address ≤ frame.close) :
    p.workload (address + 1) calls + p.unit calls.length = p.workload address calls := by
  cases calls with
  | nil =>
    have ahead : p.lines.size + 2 - address = p.lines.size + 2 - (address + 1) + 1 := by
      have bound := outside rfl
      omega
    simp only [workload, List.length_nil]
    rw [ahead, Nat.add_mul, Nat.one_mul]
  | cons frame below =>
    have ahead : frame.close + 1 - address = frame.close + 1 - (address + 1) + 1 := by
      have bound := inside frame rfl
      omega
    simp only [workload, List.length_cons]
    rw [ahead, Nat.add_mul, Nat.one_mul]
    omega

/-- A call brings less than the line counts for that makes it. -/
theorem workload_call {p : Program} (tidy : p.Tidy) {region : Region} (member : region ∈ p.regions)
    (number : Nat) (arguments : List String) (back : Nat) {calls : List Frame}
    (room : calls.length < Machine.maxDepth) :
    p.workload (region.declaration + 1)
        (⟨region.name, number, arguments, region.close, some back⟩ :: calls) <
      p.workload back calls + p.unit calls.length := by
  have closes : region.close ≤ p.lines.size := by
    simpa using (tidy.spans region member).close_le
  have body : (region.close + 1 - (region.declaration + 1)) * p.unit (calls.length + 1) ≤
      (p.lines.size + 1) * p.unit (calls.length + 1) := by
    apply Nat.mul_le_mul_right
    omega
  have positive := p.unit_pos (calls.length + 1)
  rw [p.unit_deeper room, Nat.add_mul _ 2]
  rw [Nat.add_mul] at body
  simp only [workload]
  omega

theorem workload_start (p : Program) : p.workload 1 [] < (p.lines.size + 2) * p.unit 0 := by
  apply Nat.mul_lt_mul_of_pos_right
  · omega
  · exact p.unit_pos 0

theorem workload_entry {p : Program} (tidy : p.Tidy) {region : Region} (member : region ∈ p.regions) :
    p.workload (region.declaration + 1) [⟨region.name, 0, [], region.close, none⟩] <
      (p.lines.size + 2) * p.unit 0 := by
  have closes : region.close ≤ p.lines.size := by
    simpa using (tidy.spans region member).close_le
  have smaller := p.unit_le 1
  have positive := p.unit_pos 0
  have whole : p.workload (region.declaration + 1) [⟨region.name, 0, [], region.close, none⟩] =
      (region.close + 1 - (region.declaration + 1)) * p.unit 1 + 0 := rfl
  rw [whole, Nat.add_zero]
  generalize p.unit 0 = outer at smaller positive
  generalize p.unit 1 = inner at smaller
  calc (region.close + 1 - (region.declaration + 1)) * inner
      ≤ (region.close + 1 - (region.declaration + 1)) * outer := Nat.mul_le_mul_left _ smaller
    _ < (p.lines.size + 2) * outer := by
        apply Nat.mul_lt_mul_of_pos_right
        · omega
        · exact positive

end Program

namespace Machine

/-- What is left to do. -/
def workload (m : Machine) : Nat := m.program.workload m.pc m.stack.items

theorem destination_jumps {m : Machine} {line : Line} {i : Instruction} {target : Nat}
    (decoded : Instruction.decode line = .ok i) (taken : m.destination? i = some target) :
    Opcode.ofCommand? line.command = some .jmp ∨ Opcode.ofCommand? line.command = some .jmpCond := by
  have written := Instruction.decode_written decoded
  cases i with
  | jump => exact .inl written.1
  | jumpIf => exact .inr written.1
  | move | create | erase | compare | compute | count | reverse | print | dumpBank | dumpValue
  | dumpFrames | traceFrames | mark | call | launch | sleep | exit => cases taken

/-- Without jumps no line has a destination. -/
theorem destination_none {m : Machine} (straight : Listing.Straight m.program.lines.toList)
    {line : Line} (fetched : m.next? = some line) {i : Instruction}
    (decoded : Instruction.decode line = .ok i) : (m.reading line).destination? i = none := by
  have found := next?_line fetched
  rw [Program.line?_eq] at found
  have member : line ∈ m.program.lines.toList := Listing.mem_of_line? found
  cases taken : (m.reading line).destination? i with
  | none => rfl
  | some target =>
    rcases destination_jumps decoded taken with jump | jump
    · exact absurd jump (straight line member).1
    · exact absurd jump (straight line member).2

/-- Where a line is carried out there is one more line to count. -/
theorem workload_reading {m : Machine} {line : Line} (fetched : m.next? = some line) :
    (m.reading line).workload + m.program.unit m.stack.items.length = m.workload := by
  apply Program.workload_next
  · intro idle
    have found := next?_line fetched
    rw [Program.line?_eq] at found
    have bound := (Listing.line?_bound found).2
    rw [Array.length_toList] at bound
    rw [reading_program]
    omega
  · intro frame top
    have before := next?_before_close fetched top
    omega

/-- A step without jumps lightens the work, or ends the run. -/
theorem Move.lightens {m next : Machine} {events : List Event} {entry : Bool}
    (move : m.Move next events) (kept : m.Kept entry) (running : m.running = true)
    (straight : Listing.Straight m.program.lines.toList) (clear : m.detour = none)
    (goes : next.running = true) : next.workload < m.workload ∧ next.detour = none := by
  cases move with
  | skip region idle inside =>
    refine ⟨?_, clear⟩
    obtain ⟨member, after, before⟩ := Program.mem_of_owner? inside
    have closes : region.close ≤ m.program.lines.size := by
      simpa using (kept.tidy.spans region member).close_le
    unfold workload
    simp only [idle, Program.workload]
    apply Nat.mul_lt_mul_of_pos_right
    · omega
    · exact m.program.unit_pos 0
  | back frame stack address popped reached origin =>
    obtain ⟨_, _, calls⟩ := Stack.pop?_some popped
    have top : m.stack.top? = some frame := by simp [Stack.top?, calls]
    obtain ⟨r, called, _, within⟩ := kept.placed.inside running frame top
    have closes := (Program.mem_of_called? called).2.2
    refine ⟨?_, by simp [clear]⟩
    have left : 0 < (frame.close + 1 - m.pc) * m.program.unit (stack.items.length + 1) := by
      apply Nat.mul_pos
      · omega
      · exact m.program.unit_pos _
    unfold workload
    simp only [calls, clear, Program.workload, origin, Option.getD_none, ite_self]
    omega
  | leave | finish | fail => cases goes
  | run line i next own fetched decoded effect gives =>
    have lighter := workload_reading fetched
    have positive := m.program.unit_pos m.stack.items.length
    have stays := destination_none straight fetched decoded
    cases effect with
    | work bank plain _ =>
      refine ⟨?_, clear⟩
      change (m.reading line).workload < _
      omega
    | goto target taken | defer target taken =>
      rw [stays] at taken
      cases taken
    | call name arguments region stack known pushed =>
      refine ⟨?_, clear⟩
      obtain ⟨room, _, _, items⟩ := Stack.push_ok pushed
      have member := (Program.mem_of_function? known).1
      have deeper := Program.workload_call kept.tidy member line.number arguments (m.reading line).pc
        (kept.limit ▸ room)
      unfold workload at lighter ⊢
      simp only [items, reading_stack, reading_program, reading_pc] at lighter deeper ⊢
      omega
    | exit => cases goes

/-- The step that ends a run says so last. -/
theorem Move.ends_loudly {m next : Machine} {events : List Event} (move : m.Move next events)
    (running : m.running = true) (ended : next.running = false) :
    ∃ front last, events = front ++ [last] ∧ last.isFinal = true := by
  cases move with
  | skip | back =>
    rw [show m.running = false from ended] at running
    cases running
  | leave | finish => exact ⟨[], .stopped, rfl, rfl⟩
  | fail line fault => exact ⟨m.warned line, _, rfl, rfl⟩
  | run line i next own fetched decoded effect gives =>
    rcases effect.ends with ⟨same, _⟩ | ⟨source, rfl, _⟩
    · rw [same, reading_running, running] at ended
      cases ended
    · obtain ⟨shown, status, rfl, _⟩ := exit_last gives
      exact ⟨m.warned line ++ shown, .exit status, by simp, rfl⟩

/-- A run without jumps takes fewer steps than the work that is left to it. -/
theorem Kept.ends {m : Machine} {entry : Bool} (kept : m.Kept entry) (running : m.running = true)
    (straight : Listing.Straight m.program.lines.toList) (clear : m.detour = none) {bound : Nat}
    (light : m.workload < bound) :
    ∃ n, n < bound ∧ (m.walk n).running = true ∧ (m.walk (n + 1)).running = false := by
  induction bound generalizing m with
  | zero => exact absurd light (Nat.not_lt_zero _)
  | succ bound ih =>
    cases goes : m.step.machine.running with
    | false => exact ⟨0, Nat.succ_pos bound, running, by rw [walk_first running]; exact goes⟩
    | true =>
      have move := m.step_move
      obtain ⟨lighter, still⟩ := move.lightens kept running straight clear goes
      have straight' : Listing.Straight m.step.machine.program.lines.toList :=
        move.fixed.1.symm ▸ straight
      obtain ⟨n, less, awake, ended⟩ := ih (kept.step running) goes straight' still (by omega)
      refine ⟨n + 1, by omega, ?_, ?_⟩
      · rw [walk_first running]
        exact awake
      · rw [walk_first running]
        exact ended

end Machine

namespace Session

/-- What is left to do at the start of a run. -/
theorem load_workload {source : String} {entry : Option String} {s : Session}
    (loaded : (load source entry).2 = .ok s) :
    s.machine.detour = none ∧
      s.machine.workload < (s.machine.program.lines.size + 2) ^ (Machine.maxDepth + 1) := by
  have tidy := (load_ok loaded).2.2.2.tidy
  rw [Nat.pow_succ, Nat.mul_comm]
  rcases load_machine loaded with ⟨_, started⟩ | ⟨function, _, started⟩
  · rw [started]
    exact ⟨rfl, Program.workload_start _⟩
  · obtain ⟨region, member, machine⟩ := Machine.startAt_ok started
    have light := Program.workload_entry tidy member
    generalize s.machine.program = p at *
    rw [machine]
    exact ⟨rfl, light⟩

/-- A program without jumps ends, whatever it calls: some step is the last one, and it raises an end,
an exit or an error. -/
theorem straight_ends {source : String} {entry : Option String} {s : Session}
    (loaded : (load source entry).2 = .ok s) (straight : (Listing.ofSource source).Straight) :
    ∃ n front last, n < ((Listing.ofSource source).length + 2) ^ (Machine.maxDepth + 1) ∧
      (s.machine.walk n).running = true ∧ (s.machine.walk (n + 1)).running = false ∧
      s.machine.raised (n + 1) = front ++ [last] ∧ last.isFinal = true := by
  obtain ⟨compiled, _, running, kept⟩ := load_ok loaded
  have lines := (Program.tidy_of_compile compiled).1
  obtain ⟨clear, light⟩ := load_workload loaded
  obtain ⟨n, less, awake, ended⟩ := kept.ends running (lines ▸ straight) clear light
  have stepped := Machine.walk_running awake
  obtain ⟨front, last, events, final⟩ :=
    (s.machine.walk n).step_move.ends_loudly awake (stepped ▸ ended)
  refine ⟨n, s.machine.raised n ++ front, last, ?_, awake, ended, ?_, final⟩
  · rw [← lines, Array.length_toList]
    exact less
  · simp [Machine.raised, Machine.emits, awake, events]

/-- Two functions that call each other and never return. -/
theorem straight_ends_cycle :
    ∃ s, (load "call f\nfunction f\ncall g\nendfunction\nfunction g\nasync f\ncall f\nendfunction"
        none).2 = .ok s ∧
      ∃ n front last, (s.machine.walk (n + 1)).running = false ∧
        s.machine.raised (n + 1) = front ++ [last] ∧ last.isFinal = true := by
  obtain ⟨s, loaded, _⟩ := loaded_with
    "call f\nfunction f\ncall g\nendfunction\nfunction g\nasync f\ncall f\nendfunction" none
    (fun _ => ()) () (by decide +kernel)
  obtain ⟨n, front, last, _, _, ended, raised, final⟩ := straight_ends loaded (by decide +kernel)
  exact ⟨s, loaded, n, front, last, ended, raised, final⟩

end Session

end RegisterMachine
