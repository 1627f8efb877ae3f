import RegisterMachine.Proofs.Directories
import RegisterMachine.Proofs.Placement
import RegisterMachine.Proofs.Stripping

/-!
Runs with all accesses by place. `Machine.instruct` carries out a line that takes its operands one by
one from their places, and looks functions up in a directory; `Machine.step?` is a step that does so. An
access to a place that is not there loses the run, and so does a case of an opcode or of the stack that
the code around it rules out. Nothing is ever lost: such a step is the step (`Machine.step?_eq`).
-/

namespace RegisterMachine

/-- An attempt that may be lost to a failed access. -/
def Checked (α : Type) : Type := Option (Attempt α)

namespace Checked

variable {α β : Type}

/-- An attempt in which all accesses were good. -/
def done (x : Attempt α) : Checked α := some x

def lost : Checked α := none

/-- An attempt with what was noted and warned of before it. -/
def resume (notes : List Note) (warnings : List Fault) (x : Attempt α) : Attempt α :=
  ⟨notes ++ x.notes, warnings ++ x.warnings, x.result⟩

instance : Monad Checked where
  pure a := done (pure a)
  bind x f :=
    match x with
    | none => lost
    | some ⟨notes, warnings, .error fault⟩ => done ⟨notes, warnings, .error fault⟩
    | some ⟨notes, warnings, .ok a⟩ => Option.map (resume notes warnings) (f a)

instance : MonadLift Attempt Checked where
  monadLift := done

/-- What an access gives. -/
def get (x : Option α) : Checked α := x.elim lost pure

theorem pure_then (a : α) (f : α → Checked β) : (pure a >>= f) = f a := by
  change Option.map (resume [] []) (f a) = f a
  rcases f a with _ | second
  · rfl
  · rfl

/-- A good access loses nothing. -/
theorem got {o : Option α} {a : α} (there : o = some a) {f : α → Checked β} {y : Attempt β}
    (rest : f a = done y) : (get o >>= f) = done y := by
  rw [there]
  exact (pure_then a f).trans rest

/-- Attempts one after the other lose nothing. -/
theorem done_bind {x : Attempt α} {f : α → Checked β} {g : α → Attempt β}
    (rest : ∀ a, f a = done (g a)) : (done x >>= f) = done (x >>= g) := by
  obtain ⟨notes, warnings, result⟩ := x
  cases result with
  | error fault => rfl
  | ok a =>
    change Option.map (resume notes warnings) (f a) = _
    rw [rest a]
    rfl

end Checked

namespace Machine

variable (x : Directory) (m : Machine)

/-- Whether the function on top is the one that owns a line. -/
def near (top : Option Frame) (owner : Option Region) : Bool :=
  top.all fun frame => owner.any fun region => region.close == frame.close

/-- Goes to an address, with its function looked up by place. -/
def jumpAt (address : Nat) : Checked Machine := do
  let owner ← Checked.get (x.owner address)
  if near m.stack.top? owner then return { m with pc := address }
  else do
    Attempt.note (.jumpDeferred address)
    return { m with detour := some address }

/-- The function of a name, looked up by place. -/
def functionAt (name : String) : Checked Region := do
  let found ← Checked.get (x.function name)
  found.elim (Attempt.fail (.noFunction name)) pure

/-- What an arithmetic opcode gives. There is no case for any other opcode. -/
def result (left right : Value) : Opcode → Checked Value
  | .add => Checked.done (Arithmetic.add.apply left right)
  | .sub => Checked.done (Arithmetic.subtract.apply left right)
  | .mult => Checked.done (Arithmetic.multiply.apply left right)
  | .div => Checked.done (Arithmetic.divide.apply left right)
  | .pow => Checked.done (Arithmetic.power.apply left right)
  | .mod => Checked.done (Arithmetic.modulo.apply left right)
  | .cmp => pure (.boolean (left.same right))
  | _ => .lost

def calculate (opcode : Opcode) (operands : List String) : Checked (Machine × List Event) := do
  let left ← Operand.resolve (← Checked.get operands[0]?) m.bank
  let right ← Operand.resolve (← Checked.get operands[1]?) m.bank
  let target ← Checked.get operands[2]?
  let _ ← m.bank.get target
  let value ← result left right opcode
  let bank ← m.bank.set target value
  return ({ m with bank := bank }, [])

def tally (direction : Count) (operands : List String) : Checked (Machine × List Event) := do
  let register ← Checked.get operands[0]?
  let current ← m.bank.get register
  let value ← direction.apply register current
  let bank ← m.bank.set register value
  return ({ m with bank := bank }, [])

def tell (newline : Bool) (source : String) : Checked (Machine × List Event) := do
  let value ← Operand.resolve source m.bank
  return (m, [.print (if newline then value.text ++ "\n" else value.text)])

/-- Carries out a line with an opcode, its operands taken by their places. -/
def carryOut (line : Line) (operands : List String) : Opcode → Checked (Machine × List Event)
  | .mov => do
    let target ← Checked.get operands[0]?
    let _ ← m.bank.get target
    let value ← Operand.resolve (← Checked.get operands[1]?) m.bank
    let bank ← m.bank.set target value
    return ({ m with bank := bank }, [])
  | .newReg => do
    let bank ← m.bank.create (← Checked.get operands[0]?)
    return ({ m with bank := bank }, [])
  | .delReg => return ({ m with bank := m.bank.erase (← Checked.get operands[0]?) }, [])
  | .cmp => m.calculate .cmp operands
  | .add => m.calculate .add operands
  | .sub => m.calculate .sub operands
  | .mult => m.calculate .mult operands
  | .div => m.calculate .div operands
  | .pow => m.calculate .pow operands
  | .mod => m.calculate .mod operands
  | .inc => m.tally .up operands
  | .dec => m.tally .down operands
  | .rev => do
    let register ← Checked.get operands[0]?
    let current ← m.bank.get register
    let bank ← m.bank.set register current.reverse
    return ({ m with bank := bank }, [])
  | .print => m.tell false line.remainder
  | .println => m.tell true line.remainder
  | .printReg => return (m, [.inspect (.registers m.bank.registers)])
  | .printRegVal => do
    let value ← Operand.resolve (← Checked.get operands[0]?) m.bank
    return (m, [.inspect (.value value)])
  | .printStack => return (m, [.inspect (.frames m.stack.toList)])
  | .printStackTrace => return (m, [.print m.trace])
  | .lb | .function | .endFunction => return (m, [])
  | .jmp => do
    let address ← m.target (← Checked.get operands[0]?)
    let m ← m.jumpAt x address
    return (m, [])
  | .jmpCond => do
    let address ← m.target (← Checked.get operands[0]?)
    let condition ← m.bank.get (← Checked.get operands[1]?)
    if condition.isTruthy then do
      let m ← m.jumpAt x address
      return (m, [])
    else return (m, [])
  | .call => do
    let region ← functionAt x (← Checked.get operands[0]?)
    let arguments ← Checked.get (slice? operands 1 operands.length)
    let m ← m.enter region line.number arguments (some m.pc)
    return (m, [])
  | .async => do
    let region ← functionAt x (← Checked.get operands[0]?)
    Attempt.note (.launched region.name line.number)
    return (m, [.launch region.name line.number])
  | .sleep => do
    let value ← Operand.resolve (← Checked.get operands[0]?) m.bank
    value.toNumber?.elim (Checked.done (.fail (.notDuration value.text))) fun duration =>
      pure (m, [.sleep (milliseconds duration)])
  | .exit =>
    if operands.isEmpty then return (m.halt, [.exit 0])
    else do
      let value ← Operand.resolve (← Checked.get operands[0]?) m.bank
      return (m.halt, exitEvents value)

/-- Carries out a line once the number of its operands is known to be right. -/
def instruct (line : Line) : Checked (Machine × List Event) :=
  match Opcode.ofCommand? line.command with
  | none => .done (.fail (.unknownCommand line.command))
  | some opcode =>
    if opcode.arity.admits line.operands.length then m.carryOut x line line.operands opcode
    else .done (.fail (.wrongCount opcode.arity line.operands.length))

/-- What trying a line leads to: its warnings, and then its events or the end of the run. -/
def conclude (tried : Attempt (Machine × List Event)) : Outcome :=
  let warned := tried.warnings.map fun fault => Event.warning (fault.report m.line)
  match tried.result with
  | .ok (next, events) => ⟨next, warned ++ events, tried.notes⟩
  | .error fault => ⟨m.halt, warned ++ [.error (fault.report m.line)], tried.notes⟩

/-- Runs the line at the program counter, or ends the run if there is none. -/
def fetch? : Option Outcome :=
  match m.program.line? m.pc with
  | none => some ⟨m.halt, [.stopped], []⟩
  | some line => Option.map (m.reading line).conclude ((m.reading line).instruct x line)

/-- Ends the call on top. There is no case for want of a call. -/
def leave? : Option Outcome := m.stack.pop?.map fun _ => m.leave

/-- One step, with all accesses by place. -/
def step? : Option Outcome :=
  match m.stack.top? with
  | some frame => if frame.close ≤ m.pc then m.leave? else m.fetch? x
  | none =>
    (x.owner m.pc).bind fun owner =>
      owner.elim (m.fetch? x) fun region => some ⟨{ m with pc := region.close + 1 }, [], []⟩

/-- A machine that runs one function only, which is looked up by place. -/
def startAt? (p : Program) (function : String) : Checked Machine := do
  let region ← functionAt x function
  (start p).enter region 0 [] none

end Machine

/-- The opcode of an operation. -/
def Arithmetic.opcode : Arithmetic → Opcode
  | add => .add
  | subtract => .sub
  | multiply => .mult
  | divide => .div
  | power => .pow
  | modulo => .mod

namespace Instruction

/-- The opcode and the operands that an instruction of the line is spelled with. -/
def Spelled (line : Line) : Instruction → Opcode → List String → Prop
  | .move target source, opcode, operands => opcode = .mov ∧ operands = [target, source]
  | .create register, opcode, operands => opcode = .newReg ∧ operands = [register]
  | .erase register, opcode, operands => opcode = .delReg ∧ operands = [register]
  | .compare left right target, opcode, operands => opcode = .cmp ∧ operands = [left, right, target]
  | .compute op left right target, opcode, operands =>
    opcode = op.opcode ∧ operands = [left, right, target]
  | .count .up register, opcode, operands => opcode = .inc ∧ operands = [register]
  | .count .down register, opcode, operands => opcode = .dec ∧ operands = [register]
  | .reverse register, opcode, operands => opcode = .rev ∧ operands = [register]
  | .print source false, opcode, _ => opcode = .print ∧ source = line.remainder
  | .print source true, opcode, _ => opcode = .println ∧ source = line.remainder
  | .dumpBank, opcode, _ => opcode = .printReg
  | .dumpValue source, opcode, operands => opcode = .printRegVal ∧ operands = [source]
  | .dumpFrames, opcode, _ => opcode = .printStack
  | .traceFrames, opcode, _ => opcode = .printStackTrace
  | .mark, opcode, _ => opcode = .lb ∨ opcode = .function ∨ opcode = .endFunction
  | .jump label, opcode, operands => opcode = .jmp ∧ operands = [label]
  | .jumpIf label register, opcode, operands => opcode = .jmpCond ∧ operands = [label, register]
  | .call function arguments, opcode, operands => opcode = .call ∧ operands = function :: arguments
  | .launch function, opcode, operands => opcode = .async ∧ ∃ rest, operands = function :: rest
  | .sleep source, opcode, operands => opcode = .sleep ∧ operands = [source]
  | .exit none, opcode, operands => opcode = .exit ∧ operands = []
  | .exit (some source), opcode, operands => opcode = .exit ∧ operands = [source]

theorem spelled_of_ofOpcode? {line : Line} {opcode : Opcode} {operands : List String} {i : Instruction}
    (found : ofOpcode? line opcode operands = some i) : i.Spelled line opcode operands := by
  unfold ofOpcode? at found
  split at found <;> cases found <;> simp [Spelled, Arithmetic.opcode]

end Instruction

namespace Machine

open Checked (pure_then got done_bind)

variable {x : Directory} {m : Machine}

theorem jumpAt_eq (indexes : x.Indexes m.program) (address : Nat) :
    m.jumpAt x address = .done (m.jump address) := by
  have same : near m.stack.top? (m.program.owner? address) = m.isLocal address := by
    unfold near isLocal
    cases m.stack.top? <;> cases m.program.owner? address <;> rfl
  have owner : x.owner address = some (m.program.owner? address) := indexes.lists.owner address
  refine got owner ?_
  rw [same, jump]
  split
  · rfl
  · rfl

theorem functionAt_eq (indexes : x.Indexes m.program) (name : String) :
    functionAt x name = .done (m.function name) := by
  have found : x.function name = some (m.program.function? name) := indexes.lists.function name
  refine got found ?_
  unfold function
  cases m.program.function? name with
  | none => rfl
  | some region => rfl

theorem calculate_eq (op : Arithmetic) (line : Line) (left right target : String) :
    m.calculate op.opcode [left, right, target] =
      .done (m.perform line (.compute op left right target)) := by
  have applied : ∀ y z, result y z op.opcode = .done (op.apply y z) := by
    intro y z
    cases op <;> rfl
  refine got rfl (done_bind fun y => got rfl (done_bind fun z => got rfl (done_bind fun _ => ?_)))
  rw [applied]
  exact done_bind fun _ => done_bind fun _ => rfl

theorem tally_eq (direction : Count) (line : Line) (register : String) :
    m.tally direction [register] = .done (m.perform line (.count direction register)) :=
  got rfl (done_bind fun _ => done_bind fun _ => done_bind fun _ => rfl)

theorem tell_eq (newline : Bool) (line : Line) (source : String) :
    m.tell newline source = .done (m.perform line (.print source newline)) :=
  done_bind fun _ => rfl

/-- An instruction finds all the operands that it takes, and does what it does. -/
theorem carryOut_eq (indexes : x.Indexes m.program) {line : Line} {opcode : Opcode}
    {operands : List String} {i : Instruction} (spelled : i.Spelled line opcode operands) :
    m.carryOut x line operands opcode = .done (m.perform line i) := by
  cases i with
  | move target source =>
    obtain ⟨rfl, rfl⟩ := spelled
    exact got rfl (done_bind fun _ => got rfl (done_bind fun _ => done_bind fun _ => rfl))
  | create register =>
    obtain ⟨rfl, rfl⟩ := spelled
    exact got rfl (done_bind fun _ => rfl)
  | erase register =>
    obtain ⟨rfl, rfl⟩ := spelled
    exact got rfl rfl
  | compare left right target =>
    obtain ⟨rfl, rfl⟩ := spelled
    exact got rfl (done_bind fun y => got rfl (done_bind fun z => got rfl (done_bind fun _ =>
      (pure_then _ _).trans (done_bind fun _ => rfl))))
  | compute op left right target =>
    obtain ⟨rfl, rfl⟩ := spelled
    have same : m.carryOut x line [left, right, target] op.opcode =
        m.calculate op.opcode [left, right, target] := by
      cases op <;> rfl
    rw [same]
    exact calculate_eq op line left right target
  | count direction register =>
    cases direction with
    | up =>
      obtain ⟨rfl, rfl⟩ := spelled
      exact tally_eq .up line register
    | down =>
      obtain ⟨rfl, rfl⟩ := spelled
      exact tally_eq .down line register
  | reverse register =>
    obtain ⟨rfl, rfl⟩ := spelled
    exact got rfl (done_bind fun _ => done_bind fun _ => rfl)
  | print source newline =>
    cases newline with
    | true =>
      obtain ⟨rfl, said⟩ := spelled
      rw [carryOut, ← said]
      exact tell_eq true line source
    | false =>
      obtain ⟨rfl, said⟩ := spelled
      rw [carryOut, ← said]
      exact tell_eq false line source
  | dumpBank | dumpFrames | traceFrames =>
    cases spelled
    rfl
  | dumpValue source =>
    obtain ⟨rfl, rfl⟩ := spelled
    exact got rfl (done_bind fun _ => rfl)
  | mark =>
    rcases spelled with rfl | rfl | rfl
    · rfl
    · rfl
    · rfl
  | jump label =>
    obtain ⟨rfl, rfl⟩ := spelled
    refine got rfl (done_bind fun address => ?_)
    rw [jumpAt_eq indexes]
    exact done_bind fun _ => rfl
  | jumpIf label register =>
    obtain ⟨rfl, rfl⟩ := spelled
    refine got rfl (done_bind fun address => got rfl (done_bind fun condition => ?_))
    rw [jumpAt_eq indexes]
    split
    · exact done_bind fun _ => rfl
    · rfl
  | call function arguments =>
    obtain ⟨rfl, rfl⟩ := spelled
    have rest : slice? (function :: arguments) 1 (function :: arguments).length = some arguments := by
      simp [slice?]
    refine got rfl ?_
    rw [functionAt_eq indexes]
    exact done_bind fun _ => got rest (done_bind fun _ => rfl)
  | launch function =>
    obtain ⟨rfl, rest, rfl⟩ := spelled
    refine got rfl ?_
    rw [functionAt_eq indexes]
    exact done_bind fun _ => done_bind fun _ => rfl
  | sleep source =>
    obtain ⟨rfl, rfl⟩ := spelled
    refine got rfl (done_bind fun value => ?_)
    cases value.toNumber? with
    | none => rfl
    | some duration => rfl
  | exit source =>
    cases source with
    | none =>
      obtain ⟨rfl, rfl⟩ := spelled
      rfl
    | some source =>
      obtain ⟨rfl, rfl⟩ := spelled
      exact got rfl (done_bind fun _ => rfl)

theorem instruct_eq (indexes : x.Indexes m.program) (line : Line) :
    m.instruct x line = .done (m.attempt line) := by
  cases command : Opcode.ofCommand? line.command with
  | none => simp [instruct, attempt, Instruction.decode, command]
  | some opcode =>
    have admits := Instruction.isSome_ofOpcode? line opcode line.operands
    cases found : Instruction.ofOpcode? line opcode line.operands with
    | none =>
      rw [found, Option.isSome_none] at admits
      simp [instruct, attempt, Instruction.decode, command, found, ← admits]
    | some i =>
      rw [found, Option.isSome_some] at admits
      have carried := carryOut_eq indexes (Instruction.spelled_of_ofOpcode? found)
      simp [instruct, attempt, Instruction.decode, command, found, ← admits, carried]

theorem fetch?_eq (indexes : x.Indexes m.program) : m.fetch? x = some m.fetch := by
  cases found : m.program.line? m.pc with
  | none => simp [fetch?, fetch, found]
  | some line =>
    have concluded : (m.reading line).conclude ((m.reading line).attempt line) =
        (m.reading line).dispatch line := by
      unfold conclude dispatch
      rcases (m.reading line).attempt line with ⟨notes, warnings, result⟩
      rfl
    have tried : (m.reading line).instruct x line = some ((m.reading line).attempt line) :=
      instruct_eq (m := m.reading line) indexes line
    simp only [fetch?, found, tried, Option.map_some, concluded, fetch_line found]

theorem leave?_eq {frame : Frame} (top : m.stack.top? = some frame) : m.leave? = some m.leave := by
  cases popped : m.stack.pop? with
  | none => simp [Stack.top?, Stack.pop?_none popped] at top
  | some result => simp [leave?, popped]

/-- A step with all accesses by place loses nothing. -/
theorem step?_eq (indexes : x.Indexes m.program) : m.step? x = some m.step := by
  cases top : m.stack.top? with
  | some frame =>
    simp only [step?, step, top]
    split
    · exact leave?_eq top
    · exact fetch?_eq indexes
  | none =>
    have owner : x.owner m.pc = some (m.program.owner? m.pc) := indexes.lists.owner m.pc
    simp only [step?, step, top, owner, Option.bind_some]
    cases m.program.owner? m.pc with
    | none => exact fetch?_eq indexes
    | some region => rfl

theorem startAt?_eq {p : Program} (indexes : x.Indexes p) (function : String) :
    startAt? x p function = .done (startAt p function) := by
  unfold startAt?
  rw [functionAt_eq (m := start p) indexes]
  refine (done_bind fun _ => rfl).trans ?_
  have program : (start p).program = p := rfl
  cases known : p.function? function with
  | none =>
    simp only [startAt, Machine.function, program, known]
    rfl
  | some region =>
    simp only [startAt, Machine.function, program, known]
    rfl

end Machine

/-- A command is never empty. -/
theorem Words.split_filled {text command : List Char} {operands : List (List Char)}
    (words : split text = command :: operands) : command ≠ [] := by
  unfold split at words
  cases found : pieces text with
  | nil => simp [found] at words
  | cons p ps =>
    rw [found] at words
    cases words
    exact ((spaced_pieces text).sound p (by simp [found])).filled

namespace Line

/-- What is left of a line without its comment has a first word, and the line is kept. -/
theorem read?_worded {raw text : List Char} (left : Words.stripComment raw = some text)
    (number : Nat) :
    Words.split text ≠ [] ∧ ∃ line, read? number (String.ofList raw) = some line ∧
      line.command :: line.operands = (Words.split text).map String.ofList := by
  obtain ⟨line, read, _, holds⟩ := read?_left left number
  obtain ⟨command, operands, words⟩ := (Words.stripped left).split
  exact ⟨by simp [words], line, read, holds.words⟩

theorem read?_filled {number : Nat} {raw : List Char} {line : Line}
    (read : read? number (String.ofList raw) = some line) : line.command ≠ "" := by
  cases left : Words.stripComment raw with
  | none =>
    rw [read?_none left] at read
    cases read
  | some text =>
    obtain ⟨_, kept, again, words⟩ := read?_worded left number
    cases read.symm.trans again
    obtain ⟨command, operands, split⟩ := (Words.stripped left).split
    intro empty
    rw [split, List.map_cons, List.cons.injEq, empty] at words
    exact Words.split_filled split (by simpa using words.1.symm)

end Line

namespace Session

/-- No access by place ever fails. Every line that is kept has a command; a text is compiled to a
directory, or blamed, without a failed access; and all accesses of its runs are good, in whatever state
a session is. -/
theorem accesses_good (source : String) :
    (∀ number raw text, Words.stripComment raw = some text →
      Words.split text ≠ [] ∧ ∃ line, Line.read? number (String.ofList raw) = some line ∧
        line.command :: line.operands = (Words.split text).map String.ofList) ∧
      (∀ number raw line, Line.read? number (String.ofList raw) = some line → line.command ≠ "") ∧
      (∀ diagnostic, (Program.compile (Listing.ofSource source)).2 = .error diagnostic →
        Directory.compile? (Listing.ofSource source) = some (.error diagnostic)) ∧
      ∀ p, (Program.compile (Listing.ofSource source)).2 = .ok p →
        ∃ x, Directory.compile? (Listing.ofSource source) = some (.ok x) ∧ x.Indexes p ∧
          (∀ function, Machine.startAt? x p function = .done (Machine.startAt p function)) ∧
          ∀ entry s, (load source entry).2 = .ok s → ∀ requests steps,
            let m := (s.after requests).machine.walk steps
            m.step? x = some m.step := by
  obtain ⟨verdict, compiled, agrees⟩ := Directory.compile?_agrees (Listing.ofSource source)
  refine ⟨fun number raw text left => Line.read?_worded left number,
    fun number raw line read => Line.read?_filled read, fun diagnostic failed => ?_, fun p good => ?_⟩
  · rw [failed] at agrees
    cases agrees with
    | error same => rw [compiled, same]
  · rw [good] at agrees
    cases agrees with
    | ok indexes =>
      refine ⟨_, compiled, indexes, Machine.startAt?_eq indexes, ?_⟩
      intro entry s loaded requests steps
      apply Machine.step?_eq
      rw [(Machine.walk_fixed _ steps).1, after_program]
      cases good.symm.trans (load_ok loaded).1
      exact indexes

/-- A session inside of a function that is called with an argument. -/
theorem accesses_good_called :
    let source := "function f\nadd 1 2 rg0\nendfunction\ncall f \"a b\""
    ∃ x s, Directory.compile? (Listing.ofSource source) = some (.ok x) ∧
      x.owners = [some 0, some 0, some 0, none] ∧ (load source none).2 = .ok s ∧
      let m := s.machine.walk 2
      m.stack.items.map Frame.parameters = [["\"a b\""]] ∧ m.step? x = some m.step := by
  intro source
  obtain ⟨s, loaded, called⟩ := loaded_with source none
    (fun s => (s.machine.walk 2).stack.items.map Frame.parameters) [["\"a b\""]] (by decide +kernel)
  obtain ⟨x, compiled, _, _, steps⟩ := (accesses_good source).2.2.2 _ (load_ok loaded).1
  have owners : (Directory.compile? (Listing.ofSource source)).map
      (fun verdict => verdict.toOption.map Directory.owners) =
        some (some [some 0, some 0, some 0, none]) := by decide +kernel
  rw [compiled] at owners
  exact ⟨x, s, compiled, Option.some.inj (Option.some.inj owners), loaded, called,
    steps none s loaded [] 2⟩

end Session

end RegisterMachine
