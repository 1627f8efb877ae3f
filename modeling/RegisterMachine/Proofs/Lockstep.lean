import RegisterMachine.Proofs.Likeness
import RegisterMachine.Proofs.Walks

/-!
Machines in lockstep. Two machines on alike programs that hold the same registers and stand at
corresponding lines do corresponding things at every step (`Machine.Like.step`), and so for any number
of steps (`Machine.Like.walk`), up to a call that returns nowhere in one of the runs only.
-/

namespace RegisterMachine

namespace Attempt

variable {α β γ δ : Type}

/-- Attempts that warn of the same and lead to related results, or fail for the same reason. -/
structure Like (R : α → β → Prop) (x : Attempt α) (y : Attempt β) : Prop where
  warnings : y.warnings = x.warnings
  result : Agree Eq R x.result y.result

theorem Like.pure {R : α → β → Prop} {a : α} {b : β} (related : R a b) :
    Like R (pure a) (pure b) :=
  ⟨rfl, .ok related⟩

theorem Like.fail {R : α → β → Prop} (fault : Fault) : Like R (fail fault) (fail fault) :=
  ⟨rfl, .error rfl⟩

theorem Like.lift {R : α → β → Prop} {x : Except Fault α} {y : Except Fault β}
    (related : Agree Eq R x y) : Like R (liftM x) (liftM y) :=
  ⟨rfl, related⟩

theorem Like.note (n n' : Note) : Like (fun _ _ => True) (note n) (note n') :=
  ⟨rfl, .ok trivial⟩

theorem Like.bind {R : α → β → Prop} {S : γ → δ → Prop} {x : Attempt α} {y : Attempt β}
    {f : α → Attempt γ} {g : β → Attempt δ} (first : Like R x y)
    (rest : ∀ a b, R a b → Like S (f a) (g b)) : Like S (x >>= f) (y >>= g) := by
  obtain ⟨notes, warnings, result⟩ := x
  obtain ⟨notes', warnings', result'⟩ := y
  obtain ⟨rfl, related⟩ := first
  cases related with
  | error same => exact ⟨rfl, .error same⟩
  | ok related =>
    have later := rest _ _ related
    refine ⟨?_, later.result⟩
    show warnings' ++ _ = warnings' ++ _
    rw [later.warnings]

/-- The same attempt, and then alike ones. -/
theorem Like.then {S : γ → δ → Prop} (x : Attempt α) {f : α → Attempt γ} {g : α → Attempt δ}
    (rest : ∀ a, Like S (f a) (g a)) : Like S (x >>= f) (x >>= g) := by
  have same : Like Eq x x := by
    refine ⟨rfl, ?_⟩
    cases x.result with
    | ok a => exact .ok rfl
    | error e => exact .error rfl
  exact same.bind fun a _ equal => equal ▸ rest a

end Attempt

variable (k : Likeness)

/-- Calls of the same function from corresponding places. -/
structure Frame.Like (f f' : Frame) : Prop where
  function : f'.function = f.function
  callingLine : k.numbers f.callingLine f'.callingLine
  parameters : k.parameters f.parameters f'.parameters
  close : f'.close = f.close + k.offset
  returnTo : f'.returnTo = (f.returnTo.map (· + k.offset)).or k.origin

namespace Machine

/-- Machines that stand at corresponding places of alike programs. -/
structure Like (m m' : Machine) : Prop where
  program : m.program.Like k m'.program
  bank : m'.bank = m.bank
  limit : m'.stack.limit = m.stack.limit
  notice : m'.stack.notice = m.stack.notice
  frames : List.Forall₂ (Frame.Like k) m.stack.items m'.stack.items
  pc : m'.pc = m.pc + k.offset
  detour : m'.detour = m.detour.map (· + k.offset)
  running : m'.running = m.running

end Machine

/-- Events that two machines raise in corresponding steps, given the traces of their calls. They differ
in line numbers only, and in what calls were handed. -/
inductive Event.Like (trace trace' : String) : Event → Event → Prop
  | stopped : Like trace trace' .stopped .stopped
  | running : Like trace trace' .running .running
  | print (text : String) : Like trace trace' (.print text) (.print text)
  /-- A trace shows the lines that the calls were made from. -/
  | trace : Like trace trace' (.print trace) (.print trace')
  | value (v : Value) : Like trace trace' (.inspect (.value v)) (.inspect (.value v))
  | registers (bank : Table Value) :
      Like trace trace' (.inspect (.registers bank)) (.inspect (.registers bank))
  | frames {calls calls' : List Frame} : List.Forall₂ (Frame.Like k) calls calls' →
      Like trace trace' (.inspect (.frames calls)) (.inspect (.frames calls'))
  | warning {d d' : Diagnostic} : d.Like k d' → Like trace trace' (.warning d) (.warning d')
  | error {d d' : Diagnostic} : d.Like k d' → Like trace trace' (.error d) (.error d')
  | launch (function : String) {line line' : Nat} : k.numbers line line' →
      Like trace trace' (.launch function line) (.launch function line')
  | sleep (milliseconds : Nat) : Like trace trace' (.sleep milliseconds) (.sleep milliseconds)
  | exit (status : Nat) : Like trace trace' (.exit status) (.exit status)

/-- Instructions that are equal but for what a call hands over. -/
inductive Instruction.Like : Instruction → Instruction → Prop
  | same (i : Instruction) : Like i i
  | call (function : String) {ps ps' : List String} : k.parameters ps ps' →
      Like (.call function ps) (.call function ps')

variable {k}

theorem Line.Like.decode {l l' : Line} (alike : l.Like k l') :
    Agree Eq (Instruction.Like k) (Instruction.decode l) (Instruction.decode l') := by
  unfold Instruction.decode
  rw [alike.command]
  rcases alike.operands with ⟨text, operands⟩ | ⟨calls, function, ps, ps', operands, operands', params⟩
  · have remainder : l'.remainder = l.remainder := by simp only [Line.remainder, text]
    have equal : ∀ opcode operands, Instruction.ofOpcode? l' opcode operands =
        Instruction.ofOpcode? l opcode operands := by
      intro opcode operands
      unfold Instruction.ofOpcode?
      rw [remainder]
    simp only [operands, equal]
    split
    · exact .error rfl
    · split
      · exact .ok (.same _)
      · exact .error rfl
  · rw [operands, operands']
    rcases calls with call | async
    · simp only [call, Instruction.ofOpcode?]
      exact .ok (.call function params)
    · simp only [async, Instruction.ofOpcode?]
      exact .ok (.same _)

namespace Stack

variable {α : Type}

theorem push_like {R : α → α → Prop} {s s' : Stack α} (limit : s'.limit = s.limit)
    (notice : s'.notice = s.notice) (items : List.Forall₂ R s.items s'.items) {a a' : α}
    (related : R a a') :
    Agree Eq (fun t t' => t'.limit = t.limit ∧ t'.notice = t.notice ∧ List.Forall₂ R t.items t'.items)
      (s.push a) (s'.push a') := by
  have room : s'.depth < s'.limit ↔ s.depth < s.limit := by
    rw [s.depth_eq, s'.depth_eq, items.length_eq, limit]
  unfold push
  by_cases fits : s.depth < s.limit
  · rw [if_pos fits, if_pos (room.mpr fits)]
    exact .ok ⟨limit, notice, .cons related items⟩
  · rw [if_neg fits, if_neg (mt room.mp fits), notice]
    exact .error rfl

theorem pop?_like {R : α → α → Prop} {s s' t : Stack α} {a : α} (limit : s'.limit = s.limit)
    (notice : s'.notice = s.notice) (items : List.Forall₂ R s.items s'.items)
    (popped : s.pop? = some (a, t)) :
    ∃ a' t', s'.pop? = some (a', t') ∧ R a a' ∧ t'.limit = t.limit ∧ t'.notice = t.notice ∧
      List.Forall₂ R t.items t'.items := by
  obtain ⟨limit₁, notice₁, items₁⟩ := pop?_some popped
  rcases popped' : s'.pop? with _ | ⟨a', t'⟩
  · rw [items₁, pop?_none popped'] at items
    cases items
  · obtain ⟨limit₂, notice₂, items₂⟩ := pop?_some popped'
    rw [items₁, items₂] at items
    cases items with
    | cons first rest =>
      refine ⟨a', t', rfl, first, ?_, ?_, rest⟩
      · rw [limit₁, limit₂, limit]
      · rw [notice₁, notice₂, notice]

end Stack

namespace Machine

variable {m m' : Machine} {trace trace' : String}

/-- The next step shows the trace of the calls. -/
def Traces (m : Machine) : Prop :=
  ∃ line, m.next? = some line ∧ Instruction.decode line = .ok .traceFrames

theorem Like.halt (alike : m.Like k m') : m.halt.Like k m'.halt :=
  { alike with running := rfl }

theorem Like.withBank (alike : m.Like k m') (bank : Bank) :
    Like k { m with bank := bank } { m' with bank := bank } :=
  { alike with bank := rfl }

theorem Like.goto (alike : m.Like k m') (address : Nat) :
    Like k { m with pc := address } { m' with pc := address + k.offset } :=
  { alike with pc := rfl }

theorem Like.reading (alike : m.Like k m') (l l' : Line) : (m.reading l).Like k (m'.reading l') :=
  { alike with
    pc := by simp only [reading_pc, alike.pc, Nat.add_right_comm] }

theorem Like.top? (alike : m.Like k m') :
    Option.Rel (Frame.Like k) m.stack.top? m'.stack.top? :=
  forall₂_head? alike.frames

/-- A jump stays in the running code in both machines or in none. -/
theorem Like.isLocal (alike : m.Like k m') (address : Nat) :
    m'.isLocal (address + k.offset) = m.isLocal address := by
  have tops := alike.top?
  unfold Machine.isLocal
  rw [alike.program.owner?]
  generalize m.stack.top? = top at tops
  generalize m'.stack.top? = top' at tops
  cases tops with
  | none => rfl
  | some frames =>
    cases m.program.owner? address with
    | none => rfl
    | some region => simp [Region.shift, frames.close]

/-- What two instructions lead to. -/
def Like.Next (k : Likeness) (trace trace' : String) (x y : Machine × List Event) : Prop :=
  x.1.Like k y.1 ∧ List.Forall₂ (Event.Like k trace trace') x.2 y.2

theorem Like.target (alike : m.Like k m') (label : String) :
    Attempt.Like (fun a a' => a' = a + k.offset) (m.target label) (m'.target label) := by
  unfold Machine.target
  rw [alike.program.label?]
  cases m.program.label? label with
  | none => exact .fail _
  | some address => exact (Attempt.Like.note _ _).bind fun _ _ _ => .pure rfl

theorem Like.jump (alike : m.Like k m') (address : Nat) :
    Attempt.Like (Machine.Like k) (m.jump address) (m'.jump (address + k.offset)) := by
  unfold Machine.jump
  rw [alike.isLocal]
  split
  · exact .pure (alike.goto address)
  · exact (Attempt.Like.note _ _).bind fun _ _ _ => .pure { alike with detour := rfl }

theorem Like.function (alike : m.Like k m') (name : String) :
    Agree Eq (fun r r' => r' = r.shift k.offset) (m.function name) (m'.function name) := by
  unfold Machine.function
  rw [alike.program.function?]
  cases m.program.function? name with
  | none => exact .error rfl
  | some region => exact .ok rfl

theorem Like.enter (alike : m.Like k m') (region : Region) {number number' : Nat}
    (numbers : k.numbers number number') {ps ps' : List String} (params : k.parameters ps ps')
    {returnTo returnTo' : Option Nat}
    (returns : returnTo' = (returnTo.map (· + k.offset)).or k.origin) :
    Attempt.Like (Machine.Like k) (m.enter region number ps returnTo)
      (m'.enter (region.shift k.offset) number' ps' returnTo') := by
  have frames : Frame.Like k ⟨region.name, number, ps, region.close, returnTo⟩
      ⟨region.name, number', ps', region.close + k.offset, returnTo'⟩ :=
    ⟨rfl, numbers, params, rfl, returns⟩
  refine (Attempt.Like.note _ _).bind fun _ _ _ => ?_
  refine (Attempt.Like.lift (Stack.push_like alike.limit alike.notice alike.frames frames)).bind ?_
  rintro stack stack' ⟨limit, notice, items⟩
  exact .pure { alike with
    limit := limit
    notice := notice
    frames := items
    pc := by simp only [Region.shift, Nat.add_right_comm] }

theorem exitEvents_like (value : Value) (trace trace' : String) :
    List.Forall₂ (Event.Like k trace trace') (exitEvents value) (exitEvents value) := by
  have shown : List.Forall₂ (Event.Like k trace trace')
      [.print "Program exited. Result:\n", .inspect (.value value), .exit 0]
      [.print "Program exited. Result:\n", .inspect (.value value), .exit 0] :=
    .cons (.print _) (.cons (.value _) (.cons (.exit _) .nil))
  unfold exitEvents
  split
  · split
    · exact .cons (.exit _) .nil
    · exact shown
  · exact shown

theorem Like.call (alike : m.Like k m') {l l' : Line} (numbers : k.numbers l.number l'.number)
    (name : String) {ps ps' : List String} (params : k.parameters ps ps') :
    Attempt.Like (Like.Next k trace trace') (m.perform l (.call name ps))
      (m'.perform l' (.call name ps')) := by
  refine (Attempt.Like.lift (alike.function name)).bind ?_
  rintro region _ rfl
  exact (alike.enter region numbers params (by simp [alike.pc])).bind
    fun _ _ entered => .pure ⟨entered, .nil⟩

/-- The same instruction does corresponding things to alike machines. -/
theorem Like.perform (alike : m.Like k m') {l l' : Line} (numbers : k.numbers l.number l'.number)
    (i : Instruction) (traced : i = .traceFrames → trace = m.trace ∧ trace' = m'.trace) :
    Attempt.Like (Like.Next k trace trace') (m.perform l i) (m'.perform l' i) := by
  have still : Like.Next k trace trace' (m, []) (m', []) := ⟨alike, .nil⟩
  cases i
  case call name arguments => exact alike.call numbers name (k.parameters_refl arguments)
  all_goals simp only [Machine.perform, alike.bank]
  case move | create | compare | compute | count | reverse =>
    repeat refine .then _ fun _ => ?_
    exact .pure ⟨alike.withBank _, .nil⟩
  case erase => exact .pure ⟨alike.withBank _, .nil⟩
  case print => exact .then _ fun _ => .pure ⟨alike, .cons (.print _) .nil⟩
  case dumpBank => exact .pure ⟨alike, .cons (.registers _) .nil⟩
  case dumpValue => exact .then _ fun _ => .pure ⟨alike, .cons (.value _) .nil⟩
  case dumpFrames =>
    exact .pure ⟨alike, .cons (.frames (List.rel_reverse alike.frames)) .nil⟩
  case traceFrames =>
    obtain ⟨rfl, rfl⟩ := traced rfl
    exact .pure ⟨alike, .cons .trace .nil⟩
  case mark => exact .pure still
  case jump label =>
    refine (alike.target label).bind ?_
    rintro address _ rfl
    exact (alike.jump address).bind fun _ _ moved => .pure ⟨moved, .nil⟩
  case jumpIf label register =>
    refine (alike.target label).bind ?_
    rintro address _ rfl
    refine .then _ fun condition => ?_
    split
    · exact (alike.jump address).bind fun _ _ moved => .pure ⟨moved, .nil⟩
    · exact .pure still
  case launch name =>
    refine (Attempt.Like.lift (alike.function name)).bind ?_
    rintro region _ rfl
    exact (Attempt.Like.note _ _).bind fun _ _ _ => .pure ⟨alike, .cons (.launch _ numbers) .nil⟩
  case sleep =>
    refine .then _ fun value => ?_
    cases value.toNumber? with
    | none => exact .fail _
    | some x => exact .pure ⟨alike, .cons (.sleep _) .nil⟩
  case exit source =>
    cases source with
    | none => exact .pure ⟨alike.halt, .cons (.exit _) .nil⟩
    | some source => exact .then _ fun value => .pure ⟨alike.halt, exitEvents_like value _ _⟩

/-- What two steps lead to. -/
structure Outcome.Like (k : Likeness) (trace trace' : String) (o o' : Outcome) : Prop where
  machine : o.machine.Like k o'.machine
  events : List.Forall₂ (Event.Like k trace trace') o.events o'.events

theorem Like.attempt (alike : m.Like k m') {l l' : Line} (same : l.Like k l')
    (traced : Instruction.decode l = .ok .traceFrames → trace = m.trace ∧ trace' = m'.trace) :
    Attempt.Like (Like.Next k trace trace') (m.attempt l) (m'.attempt l') := by
  have decoded := same.decode
  unfold Machine.attempt
  generalize Instruction.decode l = x at decoded traced
  generalize Instruction.decode l' = y at decoded
  cases decoded with
  | error equal =>
    subst equal
    exact .fail _
  | ok instructions =>
    cases instructions with
    | same => exact alike.perform same.number _ fun shows => traced (congrArg Except.ok shows)
    | call function params => exact alike.call same.number function params

theorem Like.dispatch (alike : m.Like k m') {l l' : Line} (same : l.Like k l')
    (lines : Option.Rel k.numbers m.line m'.line)
    (traced : Instruction.decode l = .ok .traceFrames → trace = m.trace ∧ trace' = m'.trace) :
    Outcome.Like k trace trace' (m.dispatch l) (m'.dispatch l') := by
  have attempts := alike.attempt same traced
  unfold Machine.dispatch
  generalize m.attempt l = x at attempts
  generalize m'.attempt l' = y at attempts
  obtain ⟨notes, warnings, result⟩ := x
  obtain ⟨notes', warnings', result'⟩ := y
  obtain ⟨rfl, results⟩ := attempts
  have warned : List.Forall₂ (Event.Like k trace trace')
      (warnings'.map fun fault => .warning (fault.report m.line))
      (warnings'.map fun fault => .warning (fault.report m'.line)) := by
    rw [List.forall₂_map_left_iff, List.forall₂_map_right_iff, List.forall₂_same]
    exact fun fault _ => .warning (fault.report_like lines)
  cases results with
  | ok next => exact ⟨next.1, List.rel_append warned next.2⟩
  | error equal =>
    subst equal
    exact ⟨alike.halt, List.rel_append warned (.cons (.error (Fault.report_like _ lines)) .nil)⟩

/-- Where the two machines have corresponding lines to read and places to return to. -/
structure Steady (k : Likeness) (m : Machine) : Prop where
  placed : 0 < m.pc ∨ k.offset = 0
  returns : k.origin = none ∨ ∀ frame ∈ m.stack.top?, frame.close ≤ m.pc → frame.returnTo ≠ none

/-- The next steps carry out corresponding lines, or none. -/
theorem Like.next? (alike : m.Like k m') (placed : 0 < m.pc ∨ k.offset = 0) :
    Option.Rel (Line.Like k) m.next? m'.next? := by
  have lines := alike.program.lines m.pc placed
  have tops := alike.top?
  unfold Machine.next?
  rw [alike.pc, alike.program.owner?, Option.isSome_map]
  generalize m.stack.top? = top at tops
  generalize m'.stack.top? = top' at tops
  cases tops with
  | none =>
    dsimp only
    split
    · exact .none
    · exact lines
  | some frames =>
    simp only [frames.close, Nat.add_le_add_iff_right]
    split
    · exact .none
    · exact lines

theorem Like.fetch (alike : m.Like k m') (steady : m.Steady k)
    (fetched : m.next? = m.program.line? m.pc)
    (traced : m.Traces → trace = m.trace ∧ trace' = m'.trace) :
    Outcome.Like k trace trace' m.fetch m'.fetch := by
  have lines := alike.program.lines m.pc steady.placed
  rw [← alike.pc] at lines
  unfold Machine.fetch
  generalize m.program.line? m.pc = x at lines fetched
  generalize m'.program.line? m'.pc = y at lines
  cases lines with
  | none => exact ⟨alike.halt, .cons .stopped .nil⟩
  | @some l l' same =>
    have next := (alike.reading l l').dispatch same (.some same.number)
      fun shows => traced ⟨l, fetched, shows⟩
    exact ⟨next.machine, next.events⟩

theorem Like.leave (alike : m.Like k m') (steady : m.Steady k) {frame : Frame}
    (top : m.stack.top? = some frame) (reached : frame.close ≤ m.pc) :
    Outcome.Like k trace trace' m.leave m'.leave := by
  rcases popped : m.stack.pop? with _ | ⟨upper, stack⟩
  · simp [Stack.top?, Stack.pop?_none popped] at top
  · have same : upper = frame := by simpa [Stack.top?, (Stack.pop?_some popped).2.2] using top
    subst same
    obtain ⟨frame', stack', popped', frames, limit, notice, items⟩ :=
      Stack.pop?_like alike.limit alike.notice alike.frames popped
    have empty : stack'.isEmpty = stack.isEmpty := by
      rw [Bool.eq_iff_iff]
      simp only [Stack.isEmpty, List.isEmpty_iff, ← List.length_eq_zero_iff, items.length_eq]
    unfold Machine.leave
    rw [popped, popped']
    cases origin : upper.returnTo with
    | some address =>
      have back : frame'.returnTo = some (address + k.offset) := by simp [frames.returnTo, origin]
      simp only [origin, back, empty]
      refine ⟨{ alike with limit, notice, frames := items, pc := ?_, detour := ?_ }, .nil⟩
      · cases stack.isEmpty <;> cases waits : m.detour <;> simp [alike.detour, waits]
      · cases stack.isEmpty <;> simp [alike.detour]
    | none =>
      have nowhere : k.origin = none :=
        steady.returns.resolve_right fun home => home upper top reached origin
      have back : frame'.returnTo = none := by simp [frames.returnTo, origin, nowhere]
      simp only [origin, back, empty]
      refine ⟨{ alike with limit, notice, frames := items, detour := ?_, running := rfl },
        .cons .stopped .nil⟩
      cases stack.isEmpty <;> simp [alike.detour]

/-- Alike machines do corresponding things in their next steps. Only a trace may show more. -/
theorem Like.step_traced (alike : m.Like k m') (steady : m.Steady k)
    (traced : m.Traces → trace = m.trace ∧ trace' = m'.trace) :
    Outcome.Like k trace trace' m.step m'.step := by
  have tops := alike.top?
  unfold Machine.step
  rw [alike.pc, alike.program.owner?]
  rcases top : m.stack.top? with _ | frame <;> rcases top' : m'.stack.top? with _ | frame' <;>
    rw [top, top'] at tops <;> cases tops
  · cases owner : m.program.owner? m.pc with
    | none => exact alike.fetch steady (by simp [Machine.next?, top, owner]) traced
    | some region =>
      refine ⟨{ alike with pc := ?_ }, .nil⟩
      simp only [Option.map, Region.shift, Nat.add_right_comm]
  · rename_i frames
    simp only [frames.close, Nat.add_le_add_iff_right]
    split
    · rename_i reached
      exact alike.leave steady top reached
    · rename_i inside
      exact alike.fetch steady (by simp [Machine.next?, top, inside]) traced

theorem Like.step (alike : m.Like k m') (steady : m.Steady k) :
    Outcome.Like k m.trace m'.trace m.step m'.step :=
  alike.step_traced steady fun _ => ⟨rfl, rfl⟩

/-- Steps taken in lockstep lead to alike machines. -/
theorem Like.walk (alike : m.Like k m') {n : Nat}
    (steady : ∀ i, i < n → (m.walk i).running = true → (m.walk i).Steady k) :
    (m.walk n).Like k (m'.walk n) := by
  induction n with
  | zero => exact alike
  | succ n ih =>
    have before := ih fun i earlier => steady i (Nat.lt_succ_of_lt earlier)
    simp only [Machine.walk, before.running]
    split
    · rename_i running
      exact (before.step (steady n (Nat.lt_succ_self n) running)).machine
    · exact before

end Machine

end RegisterMachine
