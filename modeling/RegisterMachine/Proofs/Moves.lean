import RegisterMachine.Session

/-!
What one step of the machine can do. `Effect` lists what an instruction does to the machine when it
does not fail, `Gives` the events that it raises then, and `Move` what a whole step does;
`step_move` says that every step is one of these.
-/

namespace RegisterMachine

namespace Attempt

variable {α β : Type}

theorem bind_ok {x : Attempt α} {f : α → Attempt β} {b : β} :
    (x >>= f).result = .ok b ↔ ∃ a, x.result = .ok a ∧ (f a).result = .ok b := by
  obtain ⟨notes, warnings, result⟩ := x
  cases result <;> simp [bind]

@[simp] theorem result_pure (a : α) : (pure a : Attempt α).result = .ok a := rfl

@[simp] theorem result_lift (r : Except Fault α) : (liftM r : Attempt α).result = r := rfl

@[simp] theorem result_note (n : Note) : (note n).result = .ok () := rfl

@[simp] theorem result_fail (f : Fault) : (fail f : Attempt α).result = .error f := rfl

end Attempt

namespace Stack

variable {α : Type}

theorem eq_of_items {s t : Stack α} (limit : s.limit = t.limit) (notice : s.notice = t.notice)
    (items : s.items = t.items) : s = t := by
  obtain ⟨limit₁, notice₁, items₁, depth₁, depth_eq₁⟩ := s
  obtain ⟨limit₂, notice₂, items₂, depth₂, depth_eq₂⟩ := t
  simp only at limit notice items
  subst limit notice items depth_eq₁ depth_eq₂
  rfl

theorem push_ok {s t : Stack α} {item : α} (h : s.push item = .ok t) :
    s.items.length < s.limit ∧ t.limit = s.limit ∧ t.notice = s.notice ∧
      t.items = item :: s.items := by
  unfold push at h
  split at h
  · rename_i room
    cases h
    exact ⟨s.depth_eq ▸ room, rfl, rfl, rfl⟩
  · cases h

theorem push_of_room {s : Stack α} (item : α) (room : s.items.length < s.limit) :
    ∃ t, s.push item = .ok t := by
  unfold push
  rw [if_pos (s.depth_eq ▸ room)]
  exact ⟨_, rfl⟩

theorem pop?_some {s t : Stack α} {item : α} (h : s.pop? = some (item, t)) :
    t.limit = s.limit ∧ t.notice = s.notice ∧ s.items = item :: t.items := by
  unfold pop? at h
  split at h
  · cases h
  · rename_i items
    cases h
    exact ⟨rfl, rfl, items⟩

theorem pop?_none {s : Stack α} (h : s.pop? = none) : s.items = [] := by
  unfold pop? at h
  split at h
  · assumption
  · cases h

end Stack

namespace Instruction

/-- What an instruction raises after its warnings, if it does not fail. An exit with a value that is no
status from 0 to 255 shows the value first. -/
def Gives : Instruction → List Event → Prop
  | .print .., own | .traceFrames, own => ∃ text, own = [.print text]
  | .dumpBank, own | .dumpValue _, own | .dumpFrames, own => ∃ dump, own = [.inspect dump]
  | .launch _, own => ∃ function line, own = [.launch function line]
  | .sleep _, own => ∃ milliseconds, own = [.sleep milliseconds]
  | .exit none, own => own = [.exit 0]
  | .exit (some _), own =>
    (∃ status, own = [.exit status]) ∨
      ∃ value, (∀ x, value = .number x → ¬ (0 ≤ x ∧ x ≤ 255)) ∧
        own = [.print "Program exited. Result:\n", .inspect (.value value), .exit 0]
  | _, own => own = []

/-- What holds of the events of every kind that instructions give holds of all that this one gives. -/
theorem Gives.all {P : Event → Prop} {i : Instruction} {own : List Event} (gives : i.Gives own)
    (print : ∀ text, P (.print text)) (inspect : ∀ dump, P (.inspect dump))
    (launch : ∀ function line, P (.launch function line))
    (sleep : ∀ milliseconds, P (.sleep milliseconds))
    (exit : (∃ source, i = .exit source) → ∀ status, P (.exit status)) : ∀ event ∈ own, P event := by
  cases i with
  | move | create | erase | compare | compute | count | reverse | mark | jump | jumpIf | call =>
    rw [show own = [] from gives]
    simp
  | print | traceFrames =>
    obtain ⟨text, rfl⟩ := gives
    simpa using print text
  | dumpBank | dumpValue | dumpFrames =>
    obtain ⟨dump, rfl⟩ := gives
    simpa using inspect dump
  | launch =>
    obtain ⟨function, line, rfl⟩ := gives
    simpa using launch function line
  | sleep =>
    obtain ⟨milliseconds, rfl⟩ := gives
    simpa using sleep milliseconds
  | exit source =>
    have status := exit ⟨source, rfl⟩
    cases source with
    | none =>
      rw [show own = [.exit 0] from gives]
      simpa using status 0
    | some source =>
      rcases gives with ⟨code, rfl⟩ | ⟨value, _, rfl⟩
      · simpa using status code
      · simpa using ⟨print _, inspect _, status 0⟩

theorem decode_ok {line : Line} {i : Instruction} (decoded : decode line = .ok i) :
    ∃ opcode, Opcode.ofCommand? line.command = some opcode ∧
      ofOpcode? line opcode line.operands = some i := by
  unfold decode at decoded
  split at decoded
  · cases decoded
  · rename_i opcode command
    split at decoded
    · rename_i found
      cases decoded
      exact ⟨opcode, command, found⟩
    · cases decoded

/-- How a line is written that leads elsewhere in the program. -/
def Written (line : Line) : Instruction → Prop
  | .jump label => Opcode.ofCommand? line.command = some .jmp ∧ line.operands = [label]
  | .jumpIf label register =>
    Opcode.ofCommand? line.command = some .jmpCond ∧ line.operands = [label, register]
  | .call function arguments =>
    Opcode.ofCommand? line.command = some .call ∧ line.operands = function :: arguments
  | .launch function =>
    Opcode.ofCommand? line.command = some .async ∧ line.operands.head? = some function
  | _ => True

theorem decode_written {line : Line} {i : Instruction} (decoded : decode line = .ok i) :
    i.Written line := by
  obtain ⟨opcode, command, found⟩ := decode_ok decoded
  unfold ofOpcode? at found
  split at found <;> cases found <;> simp_all [Written]

/-- Neither calls a function nor ends the run. -/
def isPlain : Instruction → Bool
  | .call .. | .exit .. => false
  | _ => true

end Instruction

namespace Machine

/-- The machine once it has gone on to the line. -/
def reading (m : Machine) (line : Line) : Machine :=
  { m with pc := m.pc + 1, line := some line.number }

@[simp] theorem reading_program (m : Machine) (line : Line) : (m.reading line).program = m.program :=
  rfl

@[simp] theorem reading_stack (m : Machine) (line : Line) : (m.reading line).stack = m.stack := rfl

@[simp] theorem reading_pc (m : Machine) (line : Line) : (m.reading line).pc = m.pc + 1 := rfl

@[simp] theorem reading_detour (m : Machine) (line : Line) : (m.reading line).detour = m.detour := rfl

@[simp] theorem reading_line (m : Machine) (line : Line) :
    (m.reading line).line = some line.number := rfl

@[simp] theorem reading_running (m : Machine) (line : Line) :
    (m.reading line).running = m.running := rfl

@[simp] theorem halt_program (m : Machine) : m.halt.program = m.program := rfl

@[simp] theorem halt_stack (m : Machine) : m.halt.stack = m.stack := rfl

@[simp] theorem halt_detour (m : Machine) : m.halt.detour = m.detour := rfl

@[simp] theorem halt_running (m : Machine) : m.halt.running = false := rfl

/-- The line that the next step carries out. There is none if that step returns from a call, goes
around a function or ends the run for want of a line. -/
def next? (m : Machine) : Option Line :=
  match m.stack.top? with
  | some frame => if frame.close ≤ m.pc then none else m.program.line? m.pc
  | none => if (m.program.owner? m.pc).isSome then none else m.program.line? m.pc

/-- The address that an instruction jumps to, if it is a jump and is taken. -/
def destination? (m : Machine) : Instruction → Option Nat
  | .jump label => m.program.label? label
  | .jumpIf label register =>
    match m.program.label? label, m.bank.find? register with
    | some address, some condition => if condition.isTruthy then some address else none
    | _, _ => none
  | _ => none

/-- What an instruction that does not fail does to the machine. -/
inductive Effect (m : Machine) (line : Line) : Instruction → Machine → Prop
  | work {i : Instruction} (bank : Bank) (plain : i.isPlain = true)
      (straight : m.destination? i = none) : Effect m line i { m with bank := bank }
  | goto {i : Instruction} (target : Nat) (taken : m.destination? i = some target)
      (near : m.isLocal target = true) : Effect m line i { m with pc := target }
  | defer {i : Instruction} (target : Nat) (taken : m.destination? i = some target)
      (far : m.isLocal target = false) : Effect m line i { m with detour := some target }
  | call (name : String) (arguments : List String) (region : Region) (stack : Stack Frame)
      (known : m.program.function? name = some region)
      (pushed : m.stack.push ⟨region.name, line.number, arguments, region.close, some m.pc⟩ =
        .ok stack) :
      Effect m line (.call name arguments)
        { m with stack := stack, pc := region.declaration + 1 }
  | exit (source : Option String) : Effect m line (.exit source) m.halt

theorem target_ok {m : Machine} {label : String} {address : Nat}
    (h : (m.target label).result = .ok address) : m.program.label? label = some address := by
  unfold target at h
  split at h
  · cases h
  · rename_i found
    simp only [Attempt.bind_ok, Attempt.result_note, Attempt.result_pure] at h
    obtain ⟨_, _, same⟩ := h
    cases same
    exact found

theorem function_ok {m : Machine} {name : String} {region : Region}
    (h : m.function name = .ok region) : m.program.function? name = some region := by
  unfold function at h
  split at h
  · cases h
  · rename_i found
    cases h
    exact found

theorem get_ok {bank : Bank} {register : String} {value : Value}
    (h : bank.get register = .ok value) : bank.find? register = some value := by
  unfold Bank.get at h
  split at h
  · rename_i found
    cases h
    exact found
  · cases h

theorem jump_effect {m next : Machine} {i : Instruction} {line : Line} {target : Nat}
    (taken : m.destination? i = some target) (h : (m.jump target).result = .ok next) :
    m.Effect line i next := by
  unfold jump at h
  split at h
  · rename_i near
    cases h
    exact .goto target taken near
  · rename_i far
    cases h
    exact .defer target taken (by simpa using far)

theorem exit_gives (source : String) (value : Value) :
    (Instruction.exit (some source)).Gives (exitEvents value) := by
  cases value with
  | number x =>
    by_cases status : 0 ≤ x ∧ x ≤ 255
    · exact .inl ⟨x.toUInt64.toNat, by simp [exitEvents, status]⟩
    · refine .inr ⟨.number x, ?_, by simp [exitEvents, status]⟩
      rintro _ ⟨⟩
      exact status
  | null | boolean | string | array | object =>
    refine .inr ⟨_, ?_, rfl⟩
    rintro _ ⟨⟩

theorem perform_effect {m next : Machine} {line : Line} {i : Instruction} {own : List Event}
    (h : (m.perform line i).result = .ok (next, own)) : m.Effect line i next ∧ i.Gives own := by
  cases i <;> simp only [perform, Attempt.bind_ok, Attempt.result_lift, Attempt.result_pure,
    Attempt.result_note] at h
  case move | count =>
    obtain ⟨_, _, _, _, bank, _, same⟩ := h
    cases same
    exact ⟨.work bank rfl rfl, rfl⟩
  case reverse =>
    obtain ⟨_, _, bank, _, same⟩ := h
    cases same
    exact ⟨.work bank rfl rfl, rfl⟩
  case create =>
    obtain ⟨bank, _, same⟩ := h
    cases same
    exact ⟨.work bank rfl rfl, rfl⟩
  case erase =>
    cases h
    exact ⟨.work _ rfl rfl, rfl⟩
  case compare =>
    obtain ⟨_, _, _, _, _, _, bank, _, same⟩ := h
    cases same
    exact ⟨.work bank rfl rfl, rfl⟩
  case compute =>
    obtain ⟨_, _, _, _, _, _, _, _, bank, _, same⟩ := h
    cases same
    exact ⟨.work bank rfl rfl, rfl⟩
  case print | dumpValue =>
    obtain ⟨_, _, same⟩ := h
    cases same
    exact ⟨.work m.bank rfl rfl, _, rfl⟩
  case dumpBank | dumpFrames | traceFrames =>
    cases h
    exact ⟨.work m.bank rfl rfl, _, rfl⟩
  case mark =>
    cases h
    exact ⟨.work m.bank rfl rfl, rfl⟩
  case jump label =>
    obtain ⟨target, found, moved, jumped, same⟩ := h
    cases same
    exact ⟨jump_effect (target_ok found) jumped, rfl⟩
  case jumpIf label register =>
    obtain ⟨target, found, condition, held, rest⟩ := h
    have destination : m.destination? (.jumpIf label register) =
        if condition.isTruthy then some target else none := by
      simp [destination?, target_ok found, get_ok held]
    split at rest
    · rename_i truthy
      simp only [Attempt.bind_ok, Attempt.result_pure] at rest
      obtain ⟨moved, jumped, same⟩ := rest
      cases same
      exact ⟨jump_effect (by simpa [truthy] using destination) jumped, rfl⟩
    · rename_i falsy
      cases rest
      exact ⟨.work m.bank rfl (by simpa [falsy] using destination), rfl⟩
  case call name arguments =>
    obtain ⟨region, found, entered, pushed, same⟩ := h
    cases same
    simp only [enter, Attempt.bind_ok, Attempt.result_lift, Attempt.result_pure,
      Attempt.result_note] at pushed
    obtain ⟨_, _, stack, pushed, same⟩ := pushed
    cases same
    exact ⟨.call name arguments region stack (function_ok found) pushed, rfl⟩
  case launch =>
    obtain ⟨_, _, _, _, same⟩ := h
    cases same
    exact ⟨.work m.bank rfl rfl, _, _, rfl⟩
  case sleep =>
    obtain ⟨value, _, rest⟩ := h
    split at rest
    · cases rest
    · cases rest
      exact ⟨.work m.bank rfl rfl, _, rfl⟩
  case exit source =>
    cases source with
    | none =>
      cases h
      exact ⟨.exit none, rfl⟩
    | some source =>
      simp only [Attempt.bind_ok, Attempt.result_pure] at h
      obtain ⟨value, _, same⟩ := h
      cases same
      exact ⟨.exit (some source), exit_gives source value⟩

/-- The warnings of the line that is carried out. -/
def warned (m : Machine) (line : Line) : List Event :=
  ((m.reading line).attempt line).warnings.map fun fault => .warning (fault.report (some line.number))

theorem warned_all {P : Event → Prop} (warning : ∀ diagnostic, P (.warning diagnostic)) (m : Machine)
    (line : Line) : ∀ event ∈ m.warned line, P event := by
  intro event member
  obtain ⟨fault, _, rfl⟩ := List.mem_map.mp member
  exact warning _

/-- What one step does to the machine, and the events that it raises. -/
inductive Move (m : Machine) : Machine → List Event → Prop
  | skip (region : Region) (idle : m.stack.items = [])
      (inside : m.program.owner? m.pc = some region) : Move m { m with pc := region.close + 1 } []
  | back (frame : Frame) (stack : Stack Frame) (address : Nat)
      (popped : m.stack.pop? = some (frame, stack)) (reached : frame.close ≤ m.pc)
      (origin : frame.returnTo = some address) :
      Move m { m with
        stack := stack
        pc := if stack.isEmpty then m.detour.getD address else address
        detour := if stack.isEmpty then none else m.detour } []
  | leave (frame : Frame) (stack : Stack Frame) (popped : m.stack.pop? = some (frame, stack))
      (reached : frame.close ≤ m.pc) (origin : frame.returnTo = none) :
      Move m { m with
        stack := stack
        detour := if stack.isEmpty then none else m.detour
        running := false } [.stopped]
  | finish (gone : m.program.line? m.pc = none) : Move m m.halt [.stopped]
  | fail (line : Line) (fault : Fault) (fetched : m.next? = some line) :
      Move m (m.reading line).halt (m.warned line ++ [.error (fault.report (some line.number))])
  | run (line : Line) (i : Instruction) (next : Machine) (own : List Event)
      (fetched : m.next? = some line) (decoded : Instruction.decode line = .ok i)
      (effect : (m.reading line).Effect line i next) (gives : i.Gives own) :
      Move m next (m.warned line ++ own)

theorem dispatch_move {m : Machine} {line : Line} (fetched : m.next? = some line) :
    m.Move ((m.reading line).dispatch line).machine ((m.reading line).dispatch line).events := by
  rcases attempted : (m.reading line).attempt line with ⟨notes, warnings, result⟩
  have warned : m.warned line =
      warnings.map fun fault => .warning (fault.report (some line.number)) := by
    simp [Machine.warned, attempted]
  cases result with
  | error fault =>
    have events : ((m.reading line).dispatch line) =
        ⟨(m.reading line).halt, m.warned line ++ [.error (fault.report (some line.number))],
          notes⟩ := by
      simp [dispatch, attempted, warned]
    rw [events]
    exact .fail line fault fetched
  | ok outcome =>
    obtain ⟨next, own⟩ := outcome
    have events : ((m.reading line).dispatch line) = ⟨next, m.warned line ++ own, notes⟩ := by
      simp [dispatch, attempted, warned]
    rw [events]
    cases decoded : Instruction.decode line with
    | error fault => simp [attempt, decoded, Attempt.fail] at attempted
    | ok i =>
      have performed : ((m.reading line).perform line i).result = .ok (next, own) := by
        simpa [attempt, decoded] using congrArg Attempt.result attempted
      obtain ⟨effect, gives⟩ := perform_effect performed
      exact .run line i next own fetched decoded effect gives

theorem leave_move {m : Machine} {frame : Frame} (top : m.stack.top? = some frame)
    (reached : frame.close ≤ m.pc) : m.Move m.leave.machine m.leave.events := by
  cases popped : m.stack.pop? with
  | none => simp [Stack.top?, Stack.pop?_none popped] at top
  | some result =>
    obtain ⟨upper, stack⟩ := result
    have same : upper = frame := by simpa [Stack.top?, (Stack.pop?_some popped).2.2] using top
    subst same
    cases origin : upper.returnTo with
    | none =>
      have left := Move.leave upper stack popped reached origin
      cases empty : stack.isEmpty <;> simpa [Machine.leave, popped, origin, empty, halt] using left
    | some address =>
      have returned := Move.back upper stack address popped reached origin
      cases empty : stack.isEmpty <;> simpa [Machine.leave, popped, origin, empty] using returned

theorem fetch_line {m : Machine} {line : Line} (found : m.program.line? m.pc = some line) :
    m.fetch = (m.reading line).dispatch line := by
  simp [fetch, found, reading]

theorem fetch_move {m : Machine} (fetched : m.next? = m.program.line? m.pc) :
    m.Move m.fetch.machine m.fetch.events := by
  cases found : m.program.line? m.pc with
  | none =>
    have stopped : m.fetch = ⟨m.halt, [.stopped], []⟩ := by simp [fetch, found]
    rw [stopped]
    exact .finish found
  | some line =>
    rw [fetch_line found]
    exact dispatch_move (fetched.trans found)

/-- The next line is the one that the step carries out. -/
theorem step_next {m : Machine} {line : Line} (fetched : m.next? = some line) :
    m.step = (m.reading line).dispatch line := by
  cases top : m.stack.top? with
  | some frame =>
    by_cases reached : frame.close ≤ m.pc
    · simp [next?, top, reached] at fetched
    · have found : m.program.line? m.pc = some line := by simpa [next?, top, reached] using fetched
      simp only [step, top, if_neg reached, fetch_line found]
  | none =>
    cases owner : m.program.owner? m.pc with
    | some region => simp [next?, top, owner] at fetched
    | none =>
      have found : m.program.line? m.pc = some line := by simpa [next?, top, owner] using fetched
      simp only [step, top, owner, fetch_line found]

/-- Every step is a move. -/
theorem step_move (m : Machine) : m.Move m.step.machine m.step.events := by
  cases top : m.stack.top? with
  | some frame =>
    by_cases reached : frame.close ≤ m.pc
    · simpa [step, top, reached] using leave_move top reached
    · simpa [step, top, reached] using fetch_move (by simp [next?, top, reached])
  | none =>
    have idle : m.stack.items = [] := by simpa [Stack.top?] using top
    cases owner : m.program.owner? m.pc with
    | some region => simpa [step, top, owner] using Move.skip region idle owner
    | none => simpa [step, top, owner] using fetch_move (by simp [next?, top, owner])

end Machine

end RegisterMachine
