import RegisterMachine.Proofs.Moves

/-!
Lines that are done in place. A deed works on a machine, and what it has changed stays changed when it
fails; a frame is pushed before there is known to be room for it, and a run that exits is halted before
its status is read. No deed of a line leaves anything half done: a line that is done in place ends as
the line does that is tried on a copy (`Machine.dispatchInPlace_eq`).
-/

namespace RegisterMachine

namespace Attempt

variable {α : Type}

@[simp] theorem notes_lift (r : Except Fault α) : (liftM r : Attempt α).notes = [] := rfl

@[simp] theorem warnings_lift (r : Except Fault α) : (liftM r : Attempt α).warnings = [] := rfl

end Attempt

namespace Stack

variable {α : Type}

theorem depth_succ (s : Stack α) (item : α) : s.depth + 1 = (item :: s.items).length := by
  rw [List.length_cons, s.depth_eq]

/-- Puts an item on top, also beyond the limit. -/
def add (s : Stack α) (item : α) : Stack α :=
  { s with items := item :: s.items, depth := s.depth + 1, depth_eq := depth_succ s item }

/-- Takes the top item off. -/
def remove (s : Stack α) : Stack α := (s.pop?.map Prod.snd).getD s

@[simp] theorem add_limit (s : Stack α) (item : α) : (s.add item).limit = s.limit := rfl

@[simp] theorem add_depth (s : Stack α) (item : α) : (s.add item).depth = s.depth + 1 := rfl

@[simp] theorem remove_add (s : Stack α) (item : α) : (s.add item).remove = s := rfl

theorem push_eq (s : Stack α) (item : α) :
    s.push item = if s.depth < s.limit then .ok (s.add item) else .error (.stackFull s.notice) := rfl

end Stack

/-- Work on a machine in place. What it has changed stays changed when it fails. -/
def Deed (α : Type) : Type := Machine → Machine × Attempt α

namespace Deed

variable {α β : Type}

instance : Monad Deed where
  pure a m := (m, pure a)
  bind x f m :=
    let (next, first) := x m
    match first.result with
    | .error fault => (next, ⟨first.notes, first.warnings, .error fault⟩)
    | .ok a =>
      let (last, second) := f a next
      (last, ⟨first.notes ++ second.notes, first.warnings ++ second.warnings, second.result⟩)

/-- Looks at the machine. -/
def look (f : Machine → Attempt α) : Deed α := fun m => (m, f m)

/-- Changes the machine. -/
def change (f : Machine → Machine) : Deed Unit := fun m => (f m, pure ())

def assign (register : String) (value : Value) : Deed Unit := do
  let bank ← look fun m => m.bank.set register value
  change fun m => { m with bank := bank }

/-- Pushes a frame, and takes it off again if there are too many then. -/
def push (frame : Frame) : Deed Unit := do
  change fun m => { m with stack := m.stack.add frame }
  if ← look fun m => pure (decide (m.stack.depth ≤ m.stack.limit)) then return ()
  else do
    change fun m => { m with stack := m.stack.remove }
    look fun m => .fail (.stackFull m.stack.notice)

def jump (address : Nat) : Deed Unit := do
  if ← look fun m => pure (m.isLocal address) then change fun m => { m with pc := address }
  else do
    look fun _ => .note (.jumpDeferred address)
    change fun m => { m with detour := some address }

/-- Carries out an instruction of a line. -/
def perform (line : Line) : Instruction → Deed (List Event)
  | .move target source => do
    let _ ← look fun m => m.bank.get target
    let value ← look fun m => Operand.resolve source m.bank
    assign target value
    return []
  | .create register => do
    let bank ← look fun m => m.bank.create register
    change fun m => { m with bank := bank }
    return []
  | .erase register => do
    change fun m => { m with bank := m.bank.erase register }
    return []
  | .compare left right target => do
    let x ← look fun m => Operand.resolve left m.bank
    let y ← look fun m => Operand.resolve right m.bank
    let _ ← look fun m => m.bank.get target
    assign target (.boolean (x.same y))
    return []
  | .compute op left right target => do
    let x ← look fun m => Operand.resolve left m.bank
    let y ← look fun m => Operand.resolve right m.bank
    let _ ← look fun m => m.bank.get target
    let value ← look fun _ => op.apply x y
    assign target value
    return []
  | .count direction register => do
    let current ← look fun m => m.bank.get register
    let value ← look fun _ => direction.apply register current
    assign register value
    return []
  | .reverse register => do
    let current ← look fun m => m.bank.get register
    assign register current.reverse
    return []
  | .print source newline => do
    let value ← look fun m => Operand.resolve source m.bank
    return [.print (if newline then value.text ++ "\n" else value.text)]
  | .dumpBank => look fun m => pure [.inspect (.registers m.bank.registers)]
  | .dumpValue source => do
    let value ← look fun m => Operand.resolve source m.bank
    return [.inspect (.value value)]
  | .dumpFrames => look fun m => pure [.inspect (.frames m.stack.toList)]
  | .traceFrames => look fun m => pure [.print m.trace]
  | .mark => return []
  | .jump label => do
    let address ← look fun m => m.target label
    jump address
    return []
  | .jumpIf label register => do
    let address ← look fun m => m.target label
    let condition ← look fun m => m.bank.get register
    if condition.isTruthy then do
      jump address
      return []
    else return []
  | .call name arguments => do
    let region ← look fun m => m.function name
    look fun _ => .note (.called region.name line.number)
    let address ← look fun m => pure m.pc
    push ⟨region.name, line.number, arguments, region.close, some address⟩
    change fun m => { m with pc := region.declaration + 1 }
    return []
  | .launch name => do
    let region ← look fun m => m.function name
    look fun _ => .note (.launched region.name line.number)
    return [.launch region.name line.number]
  | .sleep source => do
    let value ← look fun m => Operand.resolve source m.bank
    match value.toNumber? with
    | none => look fun _ => .fail (.notDuration value.text)
    | some x => return [.sleep (Machine.milliseconds x)]
  | .exit source => do
    change Machine.halt
    match source with
    | none => return [.exit 0]
    | some source => do
      let value ← look fun m => Operand.resolve source m.bank
      return Machine.exitEvents value

/-- At a machine the deed ends as the attempt does: with what it notes, warns of and gives, on the
machine that it leads to. If they fail, the machine is as it was, or halted. -/
def Does (x : Deed α) (m : Machine) : Attempt (Machine × α) → Prop
  | ⟨notes, warnings, .ok (next, a)⟩ => x m = (next, ⟨notes, warnings, .ok a⟩)
  | ⟨notes, warnings, .error fault⟩ =>
    ∃ left : Machine, x m = (left, ⟨notes, warnings, .error fault⟩) ∧ left.halt = m.halt

theorem does_look {x : Machine → Attempt α} {f : α → Deed β} {g : α → Attempt (Machine × β)}
    {m : Machine} (rest : ∀ a, (f a).Does m (g a)) : (look x >>= f).Does m (x m >>= g) := by
  rcases looked : x m with ⟨notes, warnings, result⟩
  cases result with
  | error fault => exact ⟨m, by simp [bind, look, looked], rfl⟩
  | ok a =>
    have done := rest a
    rcases goes : g a with ⟨notes', warnings', result'⟩
    rw [goes] at done
    simp only [bind, goes]
    cases result' with
    | error fault =>
      obtain ⟨left, fails, same⟩ := done
      exact ⟨left, by simp [look, looked, fails], same⟩
    | ok outcome =>
      obtain ⟨next, b⟩ := outcome
      have ends : f a m = (next, ⟨notes', warnings', .ok b⟩) := done
      change _ = _
      simp [look, looked, ends]

/-- A failure after a change leaves the machine as it was if the change does no more than halt it. -/
theorem does_change {f : Machine → Machine} {x : Deed α} {m : Machine} {y : Attempt (Machine × α)}
    (rest : x.Does (f m) y) (halted : (f m).halt = m.halt) :
    (change f >>= fun _ => x).Does m y := by
  obtain ⟨notes, warnings, result⟩ := y
  cases result with
  | error fault =>
    obtain ⟨left, fails, same⟩ := rest
    exact ⟨left, by simp [change, bind, pure, fails], same.trans halted⟩
  | ok outcome =>
    obtain ⟨next, a⟩ := outcome
    have ends : x (f m) = (next, ⟨notes, warnings, .ok a⟩) := rest
    change _ = _
    simp [change, bind, pure, ends]

theorem does_assign (register : String) (value : Value) (a : α) (m : Machine) :
    (assign register value >>= fun _ => pure a).Does m
      (liftM (m.bank.set register value) >>= fun bank => pure ({ m with bank := bank }, a)) := by
  cases set : m.bank.set register value with
  | error fault => exact ⟨m, by simp [assign, look, bind, set], rfl⟩
  | ok bank =>
    change _ = _
    simp [assign, look, change, bind, pure, set]

theorem does_jump (address : Nat) (a : α) (m : Machine) :
    (jump address >>= fun _ => pure a).Does m (m.jump address >>= fun next => pure (next, a)) := by
  cases near : m.isLocal address with
  | true =>
    simp only [Machine.jump, near, if_true]
    change _ = _
    simp [jump, look, change, bind, pure, near]
  | false =>
    simp only [Machine.jump, near]
    change _ = _
    simp [jump, look, change, bind, pure, near, Attempt.note]

theorem push_room {m : Machine} (frame : Frame) (room : m.stack.depth < m.stack.limit) :
    push frame m = ({ m with stack := m.stack.add frame }, pure ()) := by
  have fits : m.stack.depth + 1 ≤ m.stack.limit := room
  simp [push, look, change, bind, pure, fits]

/-- A frame that does not fit is gone when its push has failed. -/
theorem push_full {m : Machine} (frame : Frame) (full : ¬ m.stack.depth < m.stack.limit) :
    push frame m = (m, .fail (.stackFull m.stack.notice)) := by
  have exceeds : ¬ m.stack.depth + 1 ≤ m.stack.limit := full
  simp [push, look, change, bind, pure, exceeds, Attempt.fail]

theorem does_enter (region : Region) (line : Line) (arguments : List String) (a : α) (m : Machine) :
    Does (do
      look fun _ => .note (.called region.name line.number)
      let address ← look fun m => pure m.pc
      push ⟨region.name, line.number, arguments, region.close, some address⟩
      change fun m => { m with pc := region.declaration + 1 }
      return a) m
      (m.enter region line.number arguments (some m.pc) >>= fun next => pure (next, a)) := by
  by_cases room : m.stack.depth < m.stack.limit
  · simp only [Machine.enter, Stack.push_eq, if_pos room]
    change _ = _
    simp [look, change, bind, pure, push_room _ room, Attempt.note]
  · simp only [Machine.enter, Stack.push_eq, if_neg room]
    refine ⟨m, ?_, rfl⟩
    simp [look, bind, pure, push_full _ room, Attempt.note, Attempt.fail]

/-- What an instruction does in place is what it does. -/
theorem perform_does (m : Machine) (line : Line) (i : Instruction) :
    (perform line i).Does m (m.perform line i) := by
  cases i with
  | move target source =>
    exact does_look fun _ => does_look fun value => does_assign target value [] m
  | create register => exact does_look fun bank => rfl
  | erase | dumpBank | dumpFrames | traceFrames | mark => rfl
  | compare left right target =>
    exact does_look fun x => does_look fun y => does_look fun _ => does_assign target _ [] m
  | compute op left right target =>
    exact does_look fun x => does_look fun y => does_look fun _ => does_look fun value =>
      does_assign target value [] m
  | count direction register =>
    exact does_look fun current => does_look fun value => does_assign register value [] m
  | reverse register => exact does_look fun current => does_assign register _ [] m
  | print | dumpValue => exact does_look fun value => rfl
  | jump label => exact does_look fun address => does_jump address [] m
  | jumpIf label register =>
    refine does_look fun address => does_look fun condition => ?_
    cases condition.isTruthy with
    | true => exact does_jump address [] m
    | false => rfl
  | call name arguments => exact does_look fun region => does_enter region line arguments [] m
  | launch => exact does_look fun region => does_look fun _ => rfl
  | sleep source =>
    refine does_look fun value => ?_
    cases value.toNumber? with
    | none => exact ⟨m, rfl, rfl⟩
    | some x => rfl
  | exit source =>
    cases source with
    | none => rfl
    | some source => exact does_change (does_look fun value => rfl) rfl

/-- Decodes a line and carries it out. -/
def attempt (line : Line) : Deed (List Event) :=
  match Instruction.decode line with
  | .error fault => look fun _ => .fail fault
  | .ok i => perform line i

theorem attempt_does (m : Machine) (line : Line) : (attempt line).Does m (m.attempt line) := by
  unfold attempt Machine.attempt
  cases Instruction.decode line with
  | error fault => exact ⟨m, rfl, rfl⟩
  | ok i => exact perform_does m line i

end Deed

namespace Machine

/-- Runs a line in place. A failure ends the run. -/
def dispatchInPlace (m : Machine) (line : Line) : Outcome :=
  let (next, ⟨notes, warnings, result⟩) := Deed.attempt line m
  let warned := warnings.map fun fault => Event.warning (fault.report m.line)
  match result with
  | .ok events => ⟨next, warned ++ events, notes⟩
  | .error fault => ⟨next.halt, warned ++ [.error (fault.report m.line)], notes⟩

theorem dispatchInPlace_eq (m : Machine) (line : Line) :
    m.dispatchInPlace line = m.dispatch line := by
  have done := Deed.attempt_does m line
  rcases attempted : m.attempt line with ⟨notes, warnings, result⟩
  rw [attempted] at done
  cases result with
  | error fault =>
    obtain ⟨left, fails, same⟩ := done
    simp [dispatchInPlace, dispatch, attempted, fails, same]
  | ok outcome =>
    obtain ⟨next, own⟩ := outcome
    have ends : Deed.attempt line m = (next, ⟨notes, warnings, .ok own⟩) := done
    simp [dispatchInPlace, dispatch, attempted, ends]

end Machine

end RegisterMachine
