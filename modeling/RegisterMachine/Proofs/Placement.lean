import Mathlib.Data.List.Chain
import RegisterMachine.Proofs.Regions
import RegisterMachine.Proofs.Walks

/-!
Where a run can be. Every active call runs a compiled function, its caller waits inside its own
function, and the machine stands inside the function on top; a jump that was put off waits only while
calls are active. `Placed` says this of one machine, every move keeps it (`Move.placed`), and
`after_placed` has it for whatever is asked of a loaded session.
-/

namespace RegisterMachine

namespace Program

/-- The function that a call runs. -/
def called? (p : Program) (frame : Frame) : Option Region :=
  p.regions.find? fun r => r.name = frame.function && r.close = frame.close

/-- The address lies in the function that the call runs, after the line that declares it. -/
def Within (p : Program) (frame : Frame) (address : Nat) : Prop :=
  ∃ r, p.called? frame = some r ∧ r.declaration < address ∧ address ≤ r.close

theorem mem_of_called? {p : Program} {frame : Frame} {r : Region} (h : p.called? frame = some r) :
    r ∈ p.regions ∧ r.name = frame.function ∧ r.close = frame.close :=
  ⟨List.mem_of_find?_eq_some h, by simpa using List.find?_some h⟩

theorem Tidy.called?_eq_some {p : Program} (tidy : p.Tidy) {frame : Frame} {r : Region}
    (member : r ∈ p.regions) (name : r.name = frame.function) (close : r.close = frame.close) :
    p.called? frame = some r := by
  cases found : p.called? frame with
  | none =>
    have := List.find?_eq_none.mp found r member
    simp [name, close] at this
  | some other =>
    obtain ⟨known, _, same⟩ := mem_of_called? found
    have ordered := (tidy.spans r member).ordered
    have ordered' := (tidy.spans other known).ordered
    rw [tidy.region_eq known member r.close (by omega) (by omega)]

/-- A line of a function that is neither its first nor its last lies strictly inside. -/
theorem Tidy.strictly_inside {p : Program} (tidy : p.Tidy) {r : Region} (member : r ∈ p.regions)
    {address : Nat} (inside : r.declaration ≤ address ∧ address ≤ r.close)
    (noFunction : p.opcode? address ≠ some .function)
    (noEnd : p.opcode? address ≠ some .endFunction) :
    r.declaration < address ∧ address < r.close := by
  have spans := tidy.spans r member
  rw [opcode?_eq] at noFunction noEnd
  constructor
  · rcases Nat.lt_or_eq_of_le inside.1 with lt | rfl
    · exact lt
    · exact absurd spans.declared.opcode noFunction
  · rcases Nat.lt_or_eq_of_le inside.2 with lt | rfl
    · exact lt
    · exact absurd spans.closed noEnd

end Program

namespace Machine

/-- How the place in the program, the active calls and the jump put off fit together. -/
structure Placed (m : Machine) (entry : Bool) : Prop where
  depth : m.stack.items.length ≤ 10000
  known : ∀ frame ∈ m.stack.items,
    ∃ r ∈ m.program.regions, r.name = frame.function ∧ r.close = frame.close
  inside : m.running = true → ∀ frame ∈ m.stack.top?, m.program.Within frame m.pc
  linked : m.stack.items.IsChain fun upper lower =>
    ∃ address, upper.returnTo = some address ∧ m.program.Within lower address
  bottom : ∀ frame ∈ m.stack.items.getLast?, frame.returnTo = none ↔ entry = true
  entered : entry = true → m.running = true → m.stack.items ≠ []
  detour : ∀ target ∈ m.detour, m.stack.items ≠ [] ∧ m.program.opcode? target = some .lb

theorem next?_line {m : Machine} {line : Line} (fetched : m.next? = some line) :
    m.program.line? m.pc = some line := by
  unfold next? at fetched
  split at fetched
  · split at fetched
    · cases fetched
    · exact fetched
  · split at fetched
    · cases fetched
    · exact fetched

theorem next?_before_close {m : Machine} {line : Line} {frame : Frame}
    (fetched : m.next? = some line) (top : m.stack.top? = some frame) : m.pc < frame.close := by
  simp only [next?, top] at fetched
  split at fetched
  · cases fetched
  · omega

theorem next?_unowned {m : Machine} {line : Line} (fetched : m.next? = some line)
    (idle : m.stack.items = []) : m.program.owner? m.pc = none := by
  have top : m.stack.top? = none := by simp [Stack.top?, idle]
  simp only [next?, top] at fetched
  split at fetched
  · cases fetched
  · rename_i free
    simpa using free

theorem Placed.halt {m : Machine} {entry : Bool} (placed : m.Placed entry) : m.halt.Placed entry where
  depth := placed.depth
  known := placed.known
  inside := fun running => absurd running (by simp)
  linked := placed.linked
  bottom := placed.bottom
  entered := fun _ running => absurd running (by simp)
  detour := placed.detour

theorem Placed.reading {m : Machine} {entry : Bool} {line : Line} (placed : m.Placed entry)
    (running : m.running = true) (fetched : m.next? = some line) :
    (m.reading line).Placed entry := by
  refine ⟨placed.depth, placed.known, ?_, placed.linked, placed.bottom, placed.entered, placed.detour⟩
  intro _ frame top
  obtain ⟨r, called, after, _⟩ := placed.inside running frame top
  have before := next?_before_close fetched top
  obtain ⟨_, _, close⟩ := Program.mem_of_called? called
  exact ⟨r, called, by simp only [reading_pc]; omega, by simp only [reading_pc]; omega⟩

theorem Placed.called {m : Machine} {entry : Bool} (placed : m.Placed entry) (tidy : m.program.Tidy)
    {frame : Frame} (member : frame ∈ m.stack.items) : ∃ r, m.program.called? frame = some r := by
  obtain ⟨r, known, name, close⟩ := placed.known frame member
  exact ⟨r, tidy.called?_eq_some known name close⟩

/-- Comparing where functions close tells whether an address lies in the function on top. -/
theorem isLocal_iff {m : Machine} (tidy : m.program.Tidy) {frame : Frame} {r : Region}
    (top : m.stack.top? = some frame) (called : m.program.called? frame = some r) (target : Nat) :
    m.isLocal target = true ↔ r.declaration ≤ target ∧ target ≤ r.close := by
  obtain ⟨member, _, close⟩ := Program.mem_of_called? called
  constructor
  · intro near
    cases owner : m.program.owner? target with
    | none => simp [isLocal, top, owner] at near
    | some region =>
      obtain ⟨known, inside⟩ := Program.mem_of_owner? owner
      have closes : region.close = frame.close := by simpa [isLocal, top, owner] using near
      have ordered := (tidy.spans region known).ordered
      have ordered' := (tidy.spans r member).ordered
      rw [← tidy.region_eq known member r.close (by omega) (by omega)]
      exact inside
  · intro inside
    simp [isLocal, top, tidy.owner?_eq_some member target inside, close]

theorem destination_label {m : Machine} (tidy : m.program.Tidy) {i : Instruction} {target : Nat}
    (taken : m.destination? i = some target) : m.program.opcode? target = some .lb := by
  cases i <;> simp only [destination?] at taken
  case jump label => exact tidy.label_names taken
  case jumpIf label register =>
    split at taken
    · rename_i address condition found held
      split at taken
      · cases taken
        exact tidy.label_names found
      · cases taken
    · cases taken
  all_goals cases taken

/-- A call of a function from where the machine stands is placed in the function's body. -/
theorem Placed.push {m : Machine} {entry : Bool} (placed : m.Placed entry) (tidy : m.program.Tidy)
    (limit : m.stack.limit = maxDepth) (running : m.running = true) {region : Region}
    (member : region ∈ m.program.regions) {callingLine : Nat} {parameters : List String}
    {stack : Stack Frame}
    (pushed : m.stack.push ⟨region.name, callingLine, parameters, region.close, some m.pc⟩ =
      .ok stack) :
    Placed { m with stack := stack, pc := region.declaration + 1 } entry := by
  obtain ⟨room, _, _, items⟩ := Stack.push_ok pushed
  have ordered := (tidy.spans region member).ordered
  refine ⟨?_, ?_, ?_, ?_, ?_, ?_, ?_⟩ <;> simp only [items]
  · rw [limit] at room
    exact room
  · intro frame among
    rcases List.mem_cons.mp among with rfl | old
    · exact ⟨region, member, rfl, rfl⟩
    · exact placed.known frame old
  · intro _ frame top
    simp only [Stack.top?, items, List.head?_cons, Option.mem_def, Option.some.injEq] at top
    subst top
    exact ⟨region, tidy.called?_eq_some member rfl rfl, by omega, by omega⟩
  · cases calls : m.stack.items with
    | nil => exact .singleton _
    | cons lower rest =>
      have top : m.stack.top? = some lower := by simp [Stack.top?, calls]
      exact .cons_cons ⟨m.pc, rfl, placed.inside running lower top⟩ (calls ▸ placed.linked)
  · cases calls : m.stack.items with
    | nil =>
      have outer : entry ≠ true := fun entry => placed.entered entry running calls
      simp [outer]
    | cons lower rest =>
      rw [List.getLast?_cons_cons, ← calls]
      exact placed.bottom
  · simp
  · intro target waits
    exact ⟨by simp, (placed.detour target waits).2⟩

theorem Effect.placed {m next : Machine} {entry : Bool} {line : Line} {i : Instruction}
    (effect : m.Effect line i next) (tidy : m.program.Tidy) (limit : m.stack.limit = maxDepth)
    (running : m.running = true) (placed : m.Placed entry) : next.Placed entry := by
  cases effect with
  | work =>
    exact ⟨placed.depth, placed.known, placed.inside, placed.linked, placed.bottom, placed.entered,
      placed.detour⟩
  | goto target taken near =>
    refine ⟨placed.depth, placed.known, ?_, placed.linked, placed.bottom, placed.entered, placed.detour⟩
    intro _ frame top
    have member : frame ∈ m.stack.items := List.mem_of_mem_head? top
    obtain ⟨r, called⟩ := placed.called tidy member
    have inside := (isLocal_iff tidy top called target).mp near
    have label := destination_label tidy taken
    have strictly := tidy.strictly_inside (Program.mem_of_called? called).1 inside
      (by rw [label]; decide) (by rw [label]; decide)
    exact ⟨r, called, strictly.1, inside.2⟩
  | defer target taken far =>
    refine ⟨placed.depth, placed.known, placed.inside, placed.linked, placed.bottom, placed.entered, ?_⟩
    rintro _ ⟨⟩
    refine ⟨fun idle => ?_, destination_label tidy taken⟩
    -- With no call active every jump is local.
    have none : m.stack.top? = none := List.head?_eq_none_iff.mpr idle
    simp [isLocal, none] at far
  | call name arguments region stack known pushed =>
    exact placed.push tidy limit running (Program.mem_of_function? known).1 pushed
  | exit source => exact placed.halt

/-- The program and the room for calls never change. -/
theorem Move.fixed {m next : Machine} {events : List Event} (move : m.Move next events) :
    next.program = m.program ∧ next.stack.limit = m.stack.limit ∧
      next.stack.notice = m.stack.notice := by
  cases move with
  | skip | finish | fail => exact ⟨rfl, rfl, rfl⟩
  | back frame stack address popped | leave frame stack popped =>
    obtain ⟨limit, notice, _⟩ := Stack.pop?_some popped
    exact ⟨rfl, limit, notice⟩
  | run line i next own fetched decoded effect gives =>
    cases effect with
    | work | goto | defer | exit => exact ⟨rfl, rfl, rfl⟩
    | call name arguments region stack known pushed =>
      obtain ⟨_, limit, notice, _⟩ := Stack.push_ok pushed
      exact ⟨rfl, limit, notice⟩

/-- The calls below the one on top are placed when it ends, and no jump waits once none is left. -/
theorem Placed.pop {m : Machine} {entry : Bool} (placed : m.Placed entry) {frame : Frame}
    {stack : Stack Frame} (popped : m.stack.pop? = some (frame, stack)) :
    Placed { m with
      stack := stack
      detour := if stack.isEmpty then none else m.detour
      running := false } entry := by
  obtain ⟨_, _, calls⟩ := Stack.pop?_some popped
  refine ⟨?_, fun lower member => ?_, ?_, ?_, fun lower last => ?_, ?_, fun target waits => ?_⟩
  · have depth := placed.depth
    rw [calls, List.length_cons] at depth
    dsimp only
    omega
  · exact placed.known lower (calls ▸ List.mem_cons_of_mem _ member)
  · intro running
    cases running
  · exact (calls ▸ placed.linked).tail
  · apply placed.bottom
    rw [calls, List.getLast?_cons]
    simp only [Option.mem_def] at last ⊢
    simp [last]
  · intro _ running
    cases running
  · cases items : stack.items with
    | nil => simp [Stack.isEmpty, items] at waits
    | cons lower rest =>
      have waited : target ∈ m.detour := by simpa [Stack.isEmpty, items] using waits
      exact ⟨by simp, (placed.detour target waited).2⟩

theorem Move.placed {m next : Machine} {events : List Event} {entry : Bool}
    (move : m.Move next events) (tidy : m.program.Tidy) (limit : m.stack.limit = maxDepth)
    (running : m.running = true) (placed : m.Placed entry) : next.Placed entry := by
  cases move with
  | skip region idle inside =>
    refine ⟨placed.depth, placed.known, ?_, placed.linked, placed.bottom, placed.entered, placed.detour⟩
    intro _ frame top
    have none : m.stack.top? = none := List.head?_eq_none_iff.mpr idle
    cases none.symm.trans top
  | back frame stack address popped reached origin =>
    obtain ⟨_, _, calls⟩ := Stack.pop?_some popped
    have rest := placed.pop popped
    refine ⟨rest.depth, rest.known, ?_, rest.linked, rest.bottom, ?_, rest.detour⟩
    · intro _ lower top
      obtain ⟨others, items⟩ := List.head?_eq_some_iff.mp top
      have chain := placed.linked
      rw [calls, show stack.items = lower :: others from items] at chain
      obtain ⟨r, returns, within⟩ := chain.rel
      rw [origin] at returns
      cases returns
      simpa [Stack.isEmpty, show stack.items = lower :: others from items] using within
    · intro entered _ idle
      have last : frame ∈ m.stack.items.getLast? := by
        simp [calls, show stack.items = [] from idle]
      rw [(placed.bottom frame last).mpr entered] at origin
      cases origin
  | leave frame stack popped reached origin => exact placed.pop popped
  | finish => exact placed.halt
  | fail line fault fetched => exact (placed.reading running fetched).halt
  | run line i next own fetched decoded effect gives =>
    exact effect.placed tidy limit running (placed.reading running fetched)

/-- What a run keeps: a machine on compiled tables, with room for the calls it may make. -/
structure Kept (m : Machine) (entry : Bool) : Prop where
  tidy : m.program.Tidy
  limit : m.stack.limit = maxDepth
  placed : m.Placed entry

theorem Kept.step {m : Machine} {entry : Bool} (kept : m.Kept entry) (running : m.running = true) :
    m.step.machine.Kept entry := by
  obtain ⟨program, limit, _⟩ := m.step_move.fixed
  exact ⟨program ▸ kept.tidy, limit.trans kept.limit,
    m.step_move.placed kept.tidy kept.limit running kept.placed⟩

theorem Kept.walk {m : Machine} {entry : Bool} (kept : m.Kept entry) (n : Nat) :
    (m.walk n).Kept entry := by
  induction n with
  | zero => exact kept
  | succ n ih =>
    cases running : (m.walk n).running with
    | true =>
      rw [walk_running running]
      exact ih.step running
    | false =>
      rw [walk_ended running 1]
      exact ih

theorem walk_fixed (m : Machine) (n : Nat) :
    (m.walk n).program = m.program ∧ (m.walk n).stack.limit = m.stack.limit ∧
      (m.walk n).stack.notice = m.stack.notice := by
  induction n with
  | zero => exact ⟨rfl, rfl, rfl⟩
  | succ n ih =>
    simp only [Machine.walk]
    split
    · obtain ⟨program, limit, notice⟩ := (m.walk n).step_move.fixed
      exact ⟨program.trans ih.1, limit.trans ih.2.1, notice.trans ih.2.2⟩
    · exact ih

theorem start_kept {p : Program} (tidy : p.Tidy) : (start p).Kept false where
  tidy := tidy
  limit := rfl
  placed := by
    refine ⟨by simp [start, Stack.empty], ?_, ?_, .nil, ?_, ?_, ?_⟩ <;>
      simp [start, Stack.empty, Stack.top?]

theorem startAt_ok {p : Program} {function : String} {m : Machine}
    (started : (startAt p function).result = .ok m) :
    ∃ region ∈ p.regions, m = { start p with
      stack := ⟨maxDepth, "Call stack overflow", [⟨region.name, 0, [], region.close, none⟩], 1, rfl⟩
      pc := region.declaration + 1 } := by
  unfold startAt at started
  split at started
  · cases started
  · rename_i region found
    simp only [enter, Attempt.bind_ok, Attempt.result_lift, Attempt.result_pure,
      Attempt.result_note] at started
    obtain ⟨_, _, stack, pushed, same⟩ := started
    obtain ⟨_, limit, notice, items⟩ := Stack.push_ok pushed
    have single : stack = ⟨maxDepth, "Call stack overflow",
        [⟨region.name, 0, [], region.close, none⟩], 1, rfl⟩ :=
      Stack.eq_of_items limit notice items
    cases same
    rw [single]
    exact ⟨region, (Program.mem_of_function? found).1, rfl⟩

theorem startAt_kept {p : Program} (tidy : p.Tidy) {function : String} {m : Machine}
    (started : (startAt p function).result = .ok m) : m.Kept true := by
  obtain ⟨region, member, rfl⟩ := startAt_ok started
  have ordered := (tidy.spans region member).ordered
  refine ⟨tidy, rfl, by simp, ?_, ?_, .singleton _, ?_, by simp, ?_⟩
  · intro frame among
    rcases List.mem_singleton.mp among with rfl
    exact ⟨region, member, rfl, rfl⟩
  · rintro _ frame ⟨⟩
    exact ⟨region, tidy.called?_eq_some member rfl rfl, by dsimp only; omega, by dsimp only; omega⟩
  · rintro frame ⟨⟩
    simp
  · rintro target ⟨⟩

/-- A run of a function that is known starts with a call of it. -/
theorem startAt_known {p : Program} {function : String} {region : Region}
    (known : p.function? function = some region) :
    ∃ m, (startAt p function).result = .ok m ∧
      m.stack.items = [⟨region.name, 0, [], region.close, none⟩] := by
  simp only [startAt, known, enter, Attempt.bind_ok, Attempt.result_lift, Attempt.result_pure,
    Attempt.result_note]
  obtain ⟨stack, pushed⟩ := Stack.push_of_room (s := (start p).stack)
    ⟨region.name, 0, [], region.close, none⟩ (by simp [start, Stack.empty, maxDepth])
  exact ⟨_, ⟨(), trivial, stack, pushed, rfl⟩, (Stack.push_ok pushed).2.2.2⟩

/-- Where the line that is carried out stands: outside of all functions if no call is active, else
strictly inside the function on top. It never declares a function, and closes none. -/
structure Stands (m : Machine) (line : Line) : Prop where
  found : m.program.line? m.pc = some line
  outside : m.stack.items = [] → m.program.owner? m.pc = none
  inside : ∀ frame ∈ m.stack.top?,
    ∃ r, m.program.called? frame = some r ∧ r.declaration < m.pc ∧ m.pc < r.close
  declares : Opcode.ofCommand? line.command ≠ some .function
  closes : Opcode.ofCommand? line.command = some .endFunction →
    m.stack.items = [] ∧ m.program.owner? m.pc = none

theorem Kept.stands {m : Machine} {entry : Bool} (kept : m.Kept entry) (running : m.running = true)
    {line : Line} (fetched : m.next? = some line) : m.Stands line := by
  have found := next?_line fetched
  have opcode : Listing.opcode? m.program.lines.toList m.pc = Opcode.ofCommand? line.command := by
    rw [← Program.opcode?_eq]
    simp [Program.opcode?, found]
  have inside : ∀ frame ∈ m.stack.top?,
      ∃ r, m.program.called? frame = some r ∧ r.declaration < m.pc ∧ m.pc < r.close := by
    intro frame top
    obtain ⟨r, called, after, _⟩ := kept.placed.inside running frame top
    have before := next?_before_close fetched top
    exact ⟨r, called, after, (Program.mem_of_called? called).2.2 ▸ before⟩
  -- Strictly inside a function no line marks one.
  have unmarked : ∀ frame ∈ m.stack.top?, ¬ Listing.Marks m.program.lines.toList m.pc := by
    intro frame top
    obtain ⟨r, called, after, before⟩ := inside frame top
    exact (kept.tidy.spans r (Program.mem_of_called? called).1).unmarked m.pc after before
  refine ⟨found, next?_unowned fetched, inside, fun declares => ?_, fun closes => ?_⟩
  · cases top : m.stack.top? with
    | some frame => exact unmarked frame top (.inl (opcode.trans declares))
    | none =>
      obtain ⟨r, member, first⟩ := kept.tidy.begun m.pc (opcode.trans declares)
      have ordered := (kept.tidy.spans r member).ordered
      have owner := kept.tidy.owner?_eq_some member m.pc (by omega)
      rw [next?_unowned fetched (List.head?_eq_none_iff.mp top)] at owner
      cases owner
  · cases top : m.stack.top? with
    | some frame => exact absurd (.inr (opcode.trans closes)) (unmarked frame top)
    | none =>
      have idle := List.head?_eq_none_iff.mp top
      exact ⟨idle, next?_unowned fetched idle⟩

end Machine

namespace Session

/-- A loaded session is fresh: its machine runs the compiled program and nothing has been asked. -/
theorem load_ok {source : String} {entry : Option String} {s : Session}
    (loaded : (load source entry).2 = .ok s) :
    (Program.compile (Listing.ofSource source)).2 = .ok s.machine.program ∧
      s = ofMachine s.machine ∧ s.machine.running = true ∧ s.machine.Kept entry.isSome := by
  simp only [load] at loaded
  rcases compiled : Program.compile (Listing.ofSource source) with ⟨notes, result⟩
  rw [compiled] at loaded
  cases result with
  | error diagnostic => cases loaded
  | ok program =>
    have tidy := (Program.tidy_of_compile (congrArg Prod.snd compiled)).2
    cases entry with
    | none =>
      cases loaded
      exact ⟨rfl, rfl, rfl, Machine.start_kept tidy⟩
    | some function =>
      cases started : (Machine.startAt program function).result with
      | error fault =>
        simp only [started] at loaded
        cases loaded
      | ok machine =>
        simp only [started] at loaded
        cases loaded
        have kept := Machine.startAt_kept tidy started
        obtain ⟨region, _, rfl⟩ := Machine.startAt_ok started
        exact ⟨rfl, rfl, rfl, kept⟩

/-- The machine of a loaded session is at the start of its program, or at that of one function. -/
theorem load_machine {source : String} {entry : Option String} {s : Session}
    (loaded : (load source entry).2 = .ok s) :
    (entry = none ∧ s.machine = Machine.start s.machine.program) ∨
      ∃ function, entry = some function ∧
        (Machine.startAt s.machine.program function).result = .ok s.machine := by
  simp only [load] at loaded
  rcases compiled : Program.compile (Listing.ofSource source) with ⟨notes, result⟩
  rw [compiled] at loaded
  cases result with
  | error diagnostic => cases loaded
  | ok program =>
    cases entry with
    | none =>
      cases loaded
      exact .inl ⟨rfl, rfl⟩
    | some function =>
      cases started : (Machine.startAt program function).result with
      | error fault =>
        simp only [started] at loaded
        cases loaded
      | ok machine =>
        simp only [started] at loaded
        cases loaded
        refine .inr ⟨function, rfl, ?_⟩
        obtain ⟨region, _, rfl⟩ := Machine.startAt_ok started
        exact started

theorem load_start {source : String} {p : Program}
    (compiled : (Program.compile (Listing.ofSource source)).2 = .ok p) :
    (load source none).2 = .ok (ofMachine (Machine.start p)) := by
  rcases result : Program.compile (Listing.ofSource source) with ⟨notes, outcome⟩
  rw [result] at compiled
  cases compiled
  simp [load, result]

theorem load_entry {source function : String} {p : Program} {m : Machine}
    (compiled : (Program.compile (Listing.ofSource source)).2 = .ok p)
    (started : (Machine.startAt p function).result = .ok m) :
    (load source (some function)).2 = .ok (ofMachine m) := by
  rcases result : Program.compile (Listing.ofSource source) with ⟨notes, outcome⟩
  rw [result] at compiled
  cases compiled
  simp [load, result, started]

/-- What a loaded session computes to. -/
theorem loaded_with {α : Type} (source : String) (entry : Option String) (f : Session → α) (result : α)
    (computed : (load source entry).2.toOption.map f = some result) :
    ∃ s, (load source entry).2 = .ok s ∧ f s = result :=
  ok_of_computed computed

theorem after_kept {s : Session} {entry : Bool} (kept : s.machine.Kept entry)
    (requests : List Request) : (s.after requests).machine.Kept entry := by
  have walked := kept.walk (s.taken requests)
  rcases s.after_machine requests with same | halted
  · rw [same]
    exact walked
  · rw [halted]
    exact ⟨walked.tidy, walked.limit, walked.placed.halt⟩

theorem after_program (s : Session) (requests : List Request) :
    (s.after requests).machine.program = s.machine.program := by
  rcases s.after_machine requests with same | halted
  · rw [same, (s.machine.walk_fixed _).1]
  · rw [halted, Machine.halt_program, (s.machine.walk_fixed _).1]

/-- Whatever is asked of a loaded session, and however many steps the machine takes then, the calls,
the place in the program and the jump put off fit together, and every line that is carried out stands
where it should. -/
theorem after_placed {source : String} {entry : Option String} {s : Session}
    (loaded : (load source entry).2 = .ok s) (requests : List Request) (steps : Nat) :
    let m := (s.after requests).machine.walk steps
    (Program.compile (Listing.ofSource source)).2 = .ok m.program ∧ m.Placed entry.isSome ∧
      (m.running = true → ∀ line, m.next? = some line →
        m.step = (m.reading line).dispatch line ∧ m.Stands line) := by
  obtain ⟨compiled, _, _, kept⟩ := load_ok loaded
  have reached := (after_kept kept requests).walk steps
  refine ⟨?_, reached.placed, fun running line fetched => ?_⟩
  · rw [(Machine.walk_fixed _ steps).1, after_program]
    exact compiled
  · exact ⟨Machine.step_next fetched, reached.stands running fetched⟩

/-- Two calls deep, with a jump put off. -/
theorem after_placed_nested :
    ∃ s, (load "call f\nlb out\nfunction f\ncall g\nendfunction\nfunction g\njmp out\nendfunction"
        none).2 = .ok s ∧
      let m := (s.after [.execute 1, .execute 2]).machine
      (m.stack.items.map Frame.function, m.detour, m.running) = (["g", "f"], some 2, true) ∧
        m.Placed false := by
  obtain ⟨s, loaded, reached⟩ := loaded_with
    "call f\nlb out\nfunction f\ncall g\nendfunction\nfunction g\njmp out\nendfunction" none
    (fun s =>
      let m := (s.after [.execute 1, .execute 2]).machine
      (m.stack.items.map Frame.function, m.detour, m.running))
    (["g", "f"], some 2, true) (by decide +kernel)
  exact ⟨s, loaded, reached, (after_placed loaded [.execute 1, .execute 2] 0).2.1⟩

end Session

end RegisterMachine
