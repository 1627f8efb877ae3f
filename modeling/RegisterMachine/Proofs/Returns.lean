import RegisterMachine.Proofs.Placement

/-!
Calls and returns. From a call until its frame is popped the frames below stay as they are, and the
pop gives back exactly the stack of the call. A call made from outside of all functions goes on where
the last jump that left its function led to, or after the call if no jump did; every other call goes
on after itself (`call_returns`).
-/

namespace RegisterMachine

namespace Machine

/-- The target of the jump that the next step takes, if it takes one. -/
def jumps? (m : Machine) : Option Nat :=
  m.next?.bind fun line =>
    match Instruction.decode line with
    | .ok i => m.destination? i
    | .error _ => none

/-- The target of the jump that the next step takes, if the function on top does not own it. -/
def leaves? (m : Machine) : Option Nat :=
  m.jumps?.filter fun target => m.program.owner? target ≠ m.stack.top?.bind m.program.called?

/-- The target of the last jump in a number of steps that the function on top did not own. -/
def lastLeave? (m : Machine) : Nat → Option Nat
  | 0 => none
  | n + 1 => (m.walk n).leaves?.or (m.lastLeave? n)

/-- A jump is local just when the function on top owns its target. -/
theorem isLocal_iff_owner {m : Machine} {entry : Bool} (kept : m.Kept entry) {frame : Frame}
    (top : m.stack.top? = some frame) (target : Nat) :
    m.isLocal target = true ↔
      m.program.owner? target = m.stack.top?.bind m.program.called? := by
  obtain ⟨r, called⟩ := kept.placed.called kept.tidy (List.mem_of_mem_head? top)
  have member := (Program.mem_of_called? called).1
  rw [isLocal_iff kept.tidy top called, top, Option.bind_some, called]
  constructor
  · exact kept.tidy.owner?_eq_some member target
  · intro owner
    exact (Program.mem_of_owner? owner).2

theorem jumps?_run {m : Machine} {line : Line} {i : Instruction} (fetched : m.next? = some line)
    (decoded : Instruction.decode line = .ok i) : m.jumps? = m.destination? i := by
  simp [jumps?, fetched, decoded]

theorem leaves?_none {m : Machine} (stays : m.jumps? = none) : m.leaves? = none := by
  simp [leaves?, stays]

/-- While calls are active the jump put off is the last one that left the function on top. -/
theorem Move.detour {m next : Machine} {events : List Event} {entry : Bool}
    (move : m.Move next events) (kept : m.Kept entry) (calls : m.stack.items ≠ [])
    (left : next.stack.items ≠ []) (running : next.running = true) :
    next.detour = m.leaves?.or m.detour := by
  obtain ⟨frame, top⟩ : ∃ frame, m.stack.top? = some frame := by
    obtain ⟨frame, rest, items⟩ := List.exists_cons_of_ne_nil calls
    exact ⟨frame, by simp [Stack.top?, items]⟩
  cases move with
  | skip region idle => exact absurd idle calls
  | back popped stack address pop reached =>
    have same : popped = frame := by simpa [Stack.top?, (Stack.pop?_some pop).2.2] using top
    have returning : m.next? = none := by simp [next?, top, ← same, reached]
    have more : stack.isEmpty = false := by simpa [Stack.isEmpty] using left
    rw [leaves?_none (by simp [jumps?, returning])]
    simp [more]
  | leave | finish | fail => cases running
  | run line i next own fetched decoded effect gives =>
    have jumps := jumps?_run fetched decoded
    cases effect with
    | work bank plain straight =>
      rw [leaves?_none (jumps.trans straight)]
      rfl
    | goto target taken near =>
      have owned := (isLocal_iff_owner kept top target).mp near
      have stays : m.leaves? = none := by
        simp [leaves?, jumps.trans taken, owned]
      rw [stays]
      rfl
    | defer target taken far =>
      have foreign : ¬ m.program.owner? target = m.stack.top?.bind m.program.called? := by
        intro owned
        have near := (isLocal_iff_owner kept top target).mpr owned
        exact absurd (near.symm.trans far) (by decide)
      have goes : m.leaves? = some target := by
        simp [leaves?, jumps.trans taken, foreign]
      rw [goes]
      rfl
    | call =>
      rw [leaves?_none jumps]
      rfl
    | exit => cases running

/-- A move leaves the frames alone, pushes one or pops one. A frame with a return address is popped
only by going back. -/
theorem Move.frames {m next : Machine} {events : List Event} (move : m.Move next events) :
    next.stack.items = m.stack.items ∨ (∃ frame, next.stack.items = frame :: m.stack.items) ∨
      ∃ frame, m.stack.items = frame :: next.stack.items ∧
        ∀ address, frame.returnTo = some address →
          next.running = m.running ∧
            next.pc = (if next.stack.items = [] then m.detour.getD address else address) ∧
            next.detour = if next.stack.items = [] then none else m.detour := by
  cases move with
  | skip | finish | fail => exact .inl rfl
  | back frame stack address popped reached origin =>
    refine .inr (.inr ⟨frame, (Stack.pop?_some popped).2.2, fun other returns => ?_⟩)
    rw [origin] at returns
    cases returns
    refine ⟨rfl, ?_, ?_⟩ <;> simp [Stack.isEmpty]
  | leave frame stack popped reached origin =>
    refine .inr (.inr ⟨frame, (Stack.pop?_some popped).2.2, fun other returns => ?_⟩)
    rw [origin] at returns
    cases returns
  | run line i next own fetched decoded effect gives =>
    cases effect with
    | work | goto | defer | exit => exact .inl rfl
    | call name arguments region stack known pushed =>
      exact .inr (.inl ⟨_, (Stack.push_ok pushed).2.2.2⟩)

section
variable {inner : Machine} {frame : Frame} {below : List Frame} {n : Nat}

/-- As long as the stack is higher than before a call, it ends with the frame of the call and the
frames below. -/
theorem frames_kept (called : inner.stack.items = frame :: below)
    (above : ∀ i, i ≤ n → below.length < (inner.walk i).stack.items.length) :
    ∀ i, i ≤ n → frame :: below <:+ (inner.walk i).stack.items := by
  intro i
  induction i with
  | zero =>
    intro _
    exact called ▸ List.suffix_rfl
  | succ i ih =>
    intro bound
    have before := ih (by omega)
    have high := above (i + 1) bound
    cases running : (inner.walk i).running with
    | false =>
      rw [walk_ended running 1]
      exact before
    | true =>
      rw [walk_running running] at high ⊢
      rcases (inner.walk i).step_move.frames with same | ⟨new, pushed⟩ | ⟨top, popped, _⟩
      · rw [same]
        exact before
      · rw [pushed]
        exact before.trans (List.suffix_cons _ _)
      · rw [popped] at before
        rcases List.suffix_cons_iff.mp before with whole | inside
        · -- Popping the frame itself would bring the stack down to what is below.
          cases whole
          omega
        · exact inside

/-- A machine that comes down to the frames below a call has run all the way. -/
theorem runs_until_return (above : ∀ i, i ≤ n → below.length < (inner.walk i).stack.items.length)
    (down : (inner.walk (n + 1)).stack.items.length ≤ below.length) :
    ∀ i, i ≤ n → (inner.walk i).running = true := by
  intro i bound
  cases running : (inner.walk i).running with
  | true => rfl
  | false =>
    have stays := walk_ended running (n + 1 - i)
    rw [show i + (n + 1 - i) = n + 1 by omega] at stays
    have high := above i bound
    rw [stays] at down
    omega

/-- The step that brings the stack down pops the frame of the call. -/
theorem pops_call (called : inner.stack.items = frame :: below) {address : Nat}
    (origin : frame.returnTo = some address)
    (above : ∀ i, i ≤ n → below.length < (inner.walk i).stack.items.length)
    (down : (inner.walk (n + 1)).stack.items.length ≤ below.length) :
    (inner.walk (n + 1)).stack.items = below ∧ (inner.walk (n + 1)).running = true ∧
      (inner.walk (n + 1)).pc =
        (if below = [] then (inner.walk n).detour.getD address else address) ∧
      (inner.walk (n + 1)).detour = if below = [] then none else (inner.walk n).detour := by
  have last := runs_until_return above down n (Nat.le_refl n)
  have high := above n (Nat.le_refl n)
  have frames := frames_kept called above n (Nat.le_refl n)
  rw [walk_running last] at down ⊢
  rcases (inner.walk n).step_move.frames with same | ⟨new, more⟩ | ⟨top, popped, goesBack⟩
  · rw [same] at down
    omega
  · rw [more, List.length_cons] at down
    omega
  · rw [popped] at frames
    rcases List.suffix_cons_iff.mp frames with whole | inside
    · obtain ⟨rfl, rest⟩ := List.cons.inj whole
      obtain ⟨goes, pc, detour⟩ := goesBack address origin
      rw [← rest] at pc detour
      exact ⟨rest.symm, goes.trans last, pc, detour⟩
    · have short := inside.length_le
      rw [List.length_cons] at short
      omega

/-- The jump put off since a call from outside of all functions is the last one that left the
function on top. -/
theorem detour_since {entry : Bool} (kept : inner.Kept entry) (clear : inner.detour = none)
    (above : ∀ i, i ≤ n → (inner.walk i).stack.items ≠ [])
    (awake : ∀ i, i ≤ n → (inner.walk i).running = true) :
    ∀ i, i ≤ n → (inner.walk i).detour = inner.lastLeave? i := by
  intro i
  induction i with
  | zero =>
    intro _
    exact clear
  | succ i ih =>
    intro bound
    have running := awake i (by omega)
    have calls := above (i + 1) bound
    have going := awake (i + 1) bound
    rw [walk_running running] at calls going ⊢
    rw [(inner.walk i).step_move.detour (kept.walk i) (above i (by omega)) calls going,
      ih (by omega)]
    rfl

end

theorem dispatch_ok {m next : Machine} {line : Line} {own : List Event}
    (attempted : (m.attempt line).result = .ok (next, own)) : (m.dispatch line).machine = next := by
  simp [dispatch, attempted]

/-- A call of a known function with room on the stack pushes its frame and moves into its body. -/
theorem step_call {m : Machine} {line : Line} {name : String} {arguments : List String}
    {region : Region} (fetched : m.next? = some line)
    (decoded : Instruction.decode line = .ok (.call name arguments))
    (known : m.program.function? name = some region) (room : m.stack.items.length < m.stack.limit) :
    ∃ stack, m.stack.push ⟨region.name, line.number, arguments, region.close, some (m.pc + 1)⟩ =
        .ok stack ∧
      m.step.machine = { m.reading line with stack := stack, pc := region.declaration + 1 } := by
  obtain ⟨stack, pushed⟩ := Stack.push_of_room
    (⟨region.name, line.number, arguments, region.close, some (m.pc + 1)⟩ : Frame) room
  have attempted : ((m.reading line).attempt line).result =
      .ok ({ m.reading line with stack := stack, pc := region.declaration + 1 }, []) := by
    simp [attempt, decoded, perform, function, known, enter, Attempt.bind_ok, pushed]
  refine ⟨stack, pushed, ?_⟩
  rw [step_next fetched, dispatch_ok attempted]

/-- How a call ends that the machine makes with its next step, if the frame of the call is popped
`n + 1` steps later. -/
structure Returns (m : Machine) (n : Nat) : Prop where
  below : ∀ i, i ≤ n → m.stack.items <:+ (m.step.machine.walk i).stack.items
  stack : (m.step.machine.walk (n + 1)).stack = m.stack
  running : (m.step.machine.walk (n + 1)).running = true
  within : m.stack.items ≠ [] → (m.step.machine.walk (n + 1)).pc = m.pc + 1
  outermost : m.stack.items = [] →
    (m.step.machine.walk (n + 1)).pc = (m.step.machine.lastLeave? n).getD (m.pc + 1) ∧
      (m.step.machine.walk (n + 1)).detour = none

theorem returns_of_call {m : Machine} {entry : Bool} (kept : m.Kept entry)
    (running : m.running = true) {line : Line} {name : String} {arguments : List String}
    {region : Region} (fetched : m.next? = some line)
    (decoded : Instruction.decode line = .ok (.call name arguments))
    (known : m.program.function? name = some region) (room : m.stack.items.length < 10000) {n : Nat}
    (above : ∀ i, i ≤ n → m.stack.items.length < (m.step.machine.walk i).stack.items.length)
    (down : (m.step.machine.walk (n + 1)).stack.items.length ≤ m.stack.items.length) :
    m.Returns n := by
  obtain ⟨stack, pushed, entered⟩ := step_call fetched decoded known (kept.limit ▸ room)
  obtain ⟨_, _, _, items⟩ := Stack.push_ok pushed
  have inner : m.step.machine.stack.items =
      ⟨region.name, line.number, arguments, region.close, some (m.pc + 1)⟩ :: m.stack.items := by
    rw [entered]
    exact items
  have frames := frames_kept inner above
  have awake := runs_until_return above down
  obtain ⟨rest, goes, pc, detour⟩ := pops_call inner rfl above down
  refine ⟨fun i bound => (List.suffix_cons _ _).trans (frames i bound), ?_, goes, ?_, ?_⟩
  · have first := m.walk_fixed 1
    have middle := m.step.machine.walk_fixed (n + 1)
    rw [walk_running (n := 0) running] at first
    exact Stack.eq_of_items (middle.2.1.trans first.2.1) (middle.2.2.trans first.2.2) rest
  · intro busy
    rw [pc, if_neg busy]
  · intro idle
    have clear : m.step.machine.detour = none := by
      rw [entered]
      cases waits : m.detour with
      | none => exact waits
      | some target => exact absurd idle (kept.placed.detour target waits).1
    have busy : ∀ i, i ≤ n → (m.step.machine.walk i).stack.items ≠ [] := by
      intro i bound
      have high := above i bound
      exact List.ne_nil_of_length_pos (by omega)
    have since := detour_since (kept.step running) clear busy awake n (Nat.le_refl n)
    rw [pc, detour, if_pos idle, if_pos idle, since]
    exact ⟨rfl, rfl⟩

/-- Popping the frame that a run started with ends the run. -/
theorem Move.ends_entry {m next : Machine} {events : List Event} (move : m.Move next events)
    (placed : m.Placed true) {bottom : Frame} (calls : m.stack.items = [bottom])
    (gone : next.stack.items = []) : next.running = false ∧ events = [.stopped] := by
  cases move with
  | skip region idle =>
    rw [idle] at calls
    cases calls
  | back frame stack address popped reached origin =>
    obtain ⟨_, _, items⟩ := Stack.pop?_some popped
    have last : frame ∈ m.stack.items.getLast? := by
      rw [items] at calls ⊢
      obtain ⟨rfl, rest⟩ := List.cons.inj calls
      simp [rest]
    rw [(placed.bottom frame last).mpr rfl] at origin
    cases origin
  | leave => exact ⟨rfl, rfl⟩
  | finish | fail =>
    rw [show m.stack.items = [] from gone] at calls
    cases calls
  | run line i next own fetched decoded effect gives =>
    cases effect with
    | work | goto | defer | exit =>
      rw [show m.stack.items = [] from gone] at calls
      cases calls
    | call name arguments region stack known pushed =>
      have items := (Stack.push_ok pushed).2.2.2
      rw [show stack.items = [] from gone] at items
      cases items

end Machine

namespace Session

/-- A call that returns gives back the stack that it was made on, and goes on after itself or, if it
was made from outside of all functions, where the last jump that left its function led to. A run of
one function ends with that function. -/
theorem call_returns {source : String} {entry : Option String} {s : Session}
    (loaded : (load source entry).2 = .ok s) (requests : List Request) (steps : Nat) :
    let m := (s.after requests).machine.walk steps
    m.running = true →
      (∀ line name arguments region, m.next? = some line →
        Instruction.decode line = .ok (.call name arguments) →
        m.program.function? name = some region → m.stack.items.length < 10000 →
        m.step.machine.stack.items =
            ⟨region.name, line.number, arguments, region.close, some (m.pc + 1)⟩ :: m.stack.items ∧
          ∀ n, (∀ i, i ≤ n → m.stack.items.length < (m.step.machine.walk i).stack.items.length) →
            (m.step.machine.walk (n + 1)).stack.items.length ≤ m.stack.items.length →
            m.Returns n) ∧
      (entry.isSome = true → ∀ bottom, m.stack.items = [bottom] → m.step.machine.stack.items = [] →
        m.step.machine.running = false ∧ m.step.events = [.stopped]) := by
  intro m running
  obtain ⟨_, _, _, kept⟩ := load_ok loaded
  have reached : m.Kept entry.isSome := (after_kept kept requests).walk steps
  refine ⟨?_, ?_⟩
  · intro line name arguments region fetched decoded known room
    refine ⟨?_, fun n above down =>
      Machine.returns_of_call reached running fetched decoded known room above down⟩
    obtain ⟨stack, pushed, entered⟩ :=
      Machine.step_call fetched decoded known (reached.limit ▸ room)
    rw [entered]
    exact (Stack.push_ok pushed).2.2.2
  · intro started bottom calls gone
    exact m.step_move.ends_entry (started ▸ reached.placed) calls gone

/-- A function that jumps out twice: the call goes on at the second target. -/
theorem call_returns_elsewhere :
    ∃ s, (load "call f\nlb a\nlb b\nfunction f\njmp a\njmp b\nendfunction" none).2 = .ok s ∧
      s.machine.Returns 2 ∧ (s.machine.step.machine.walk 3).pc = 3 := by
  obtain ⟨s, loaded, computed⟩ := loaded_with
    "call f\nlb a\nlb b\nfunction f\njmp a\njmp b\nendfunction" none
    (fun s =>
      let m := s.machine
      (m.running, m.next?, m.program.function? "f",
        [m.stack.items.length, (m.step.machine.walk 0).stack.items.length,
          (m.step.machine.walk 1).stack.items.length, (m.step.machine.walk 2).stack.items.length,
          (m.step.machine.walk 3).stack.items.length, (m.step.machine.walk 3).pc]))
    (true, some ⟨1, "call f", "call", ["f"]⟩, some ⟨"f", 4, 7⟩, [0, 1, 1, 1, 0, 3])
    (by decide +kernel)
  simp only [Prod.mk.injEq, List.cons.injEq, and_true] at computed
  obtain ⟨running, fetched, known, empty, first, second, third, down, pc⟩ := computed
  have call := (call_returns loaded [] 0 running).1 _ "f" [] _ fetched (by decide) known
    (show s.machine.stack.items.length < 10000 by omega)
  refine ⟨s, loaded, call.2 2 (fun i bound => ?_) ?_, pc⟩
  · change s.machine.stack.items.length < (s.machine.step.machine.walk i).stack.items.length
    match i, bound with
    | 0, _ => omega
    | 1, _ => omega
    | 2, _ => omega
  · change (s.machine.step.machine.walk 3).stack.items.length ≤ s.machine.stack.items.length
    omega

end Session

end RegisterMachine
