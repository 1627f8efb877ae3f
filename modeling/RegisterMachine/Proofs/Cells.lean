import RegisterMachine.Proofs.Walks

/-!
Registers that could hold any document. A cell is what a register is kept as if a structure may be any
document of JSON, also a null, a number, a truth value or a string. What such a scalar counts as, and
what a path finds in it, is left open (`Fallback`). A machine on cells does the same as the machine on
values, step by step and whatever the fallback is (`Rig.step_ofMachine`,
`RigSession.after_ofSession`): no cell ever holds a scalar as a document, and the fallback is never
asked.
-/

namespace RegisterMachine

/-- What a register could be kept as. -/
inductive Cell where
  | null
  | number (x : Float)
  | boolean (b : Bool)
  | string (s : String)
  | structured (document : Json)

/-- What is answered where a structure is neither an array nor an object. -/
structure Fallback where
  isTruthy : Json → Bool
  field? : String → Json → Option Cell

namespace Cell

/-- The cell of a document that is read out of another one, or from an operand. -/
def ofJson : Json → Cell
  | .null => null
  | .boolean b => boolean b
  | .number n => number n.toDouble
  | .string s => string s
  | .array items => structured (.array items)
  | .object fields => structured (.object fields)

def ofValue : Value → Cell
  | .null => null
  | .number x => number x
  | .boolean b => boolean b
  | .string s => string s
  | .array items => structured (.array items)
  | .object fields => structured (.object fields)

/-- A structure is an array or an object. -/
def Proper : Cell → Prop
  | structured document => (∃ items, document = .array items) ∨ ∃ fields, document = .object fields
  | _ => True

def isNull : Cell → Bool
  | null => true
  | _ => false

def toNumber? : Cell → Option Float
  | number x => if x.isFinite then some x else none
  | string s => Number.read? s
  | _ => none

def isTruthy (fallback : Fallback) : Cell → Bool
  | null => false
  | number x => x != 0
  | boolean b => b
  | string s => !s.isEmpty
  | structured (.array items) => !items.isEmpty
  | structured (.object fields) => !fields.isEmpty
  | structured scalar => fallback.isTruthy scalar

def field? (fallback : Fallback) (name : String) : Cell → Option Cell
  | structured (.array items) => (readIndex? name).bind fun index => items[index]?.map ofJson
  | structured (.object fields) => (Table.find? fields name).map ofJson
  | structured scalar => fallback.field? name scalar
  | _ => none

def same : Cell → Cell → Bool
  | null, null => true
  | number x, number y => x == y
  | boolean a, boolean b => a == b
  | string s, string t => s == t
  | structured d, structured e => d.same e
  | _, _ => false

def text : Cell → String
  | null => "null"
  | number x => Number.text x
  | boolean b => if b then "true" else "false"
  | string s => s
  | structured document => document.text

def reverse : Cell → Cell
  | number x => number (if x == 0 then 1 else 0)
  | string s => string (String.ofList s.toList.reverse)
  | boolean b => boolean !b
  | _ => null

def compute (op : Arithmetic) (left right : Cell) : Except Fault Cell :=
  match left.toNumber?, right.toNumber? with
  | some x, some y => (op.onNumbers x y).map number
  | _, _ => .error (.notNumbers left.text right.text)

def count (direction : Count) (register : String) (c : Cell) : Except Fault Cell :=
  match c.toNumber? with
  | none => .error (.notCountable direction.command register)
  | some x =>
    match direction with
    | .up => .ok (number (x + 1))
    | .down => .ok (number (x - 1))

section Values
variable (fallback : Fallback) (v w : Value)

theorem proper_ofValue : (ofValue v).Proper := by
  cases v with
  | null | number | boolean | string => trivial
  | array items => exact .inl ⟨items, rfl⟩
  | object fields => exact .inr ⟨fields, rfl⟩

@[simp] theorem ofValue_ofJson (d : Json) : ofValue (.ofJson d) = ofJson d := by
  cases d <;> rfl

@[simp] theorem isNull_ofValue : (ofValue v).isNull = v.isNull := by
  cases v <;> rfl

@[simp] theorem toNumber?_ofValue : (ofValue v).toNumber? = v.toNumber? := by
  cases v <;> rfl

@[simp] theorem isTruthy_ofValue : (ofValue v).isTruthy fallback = v.isTruthy := by
  cases v <;> rfl

@[simp] theorem text_ofValue : (ofValue v).text = v.text := by
  cases v <;> rfl

@[simp] theorem reverse_ofValue : (ofValue v).reverse = ofValue v.reverse := by
  cases v <;> rfl

@[simp] theorem same_ofValue : (ofValue v).same (ofValue w) = v.same w := by
  cases v <;> cases w <;> rfl

/-- What is read out of an array or object is kept as a value is. -/
@[simp] theorem field?_ofValue (name : String) :
    (ofValue v).field? fallback name = (v.field? name).map ofValue := by
  cases v with
  | null | number | boolean | string => rfl
  | array items =>
    simp only [ofValue, field?, Value.field?]
    cases readIndex? name with
    | none => rfl
    | some index => simp [Function.comp_def]
  | object fields =>
    have read : ofValue (.object fields) = structured (.object fields) := rfl
    simp [read, field?, Value.field?, Function.comp_def]

theorem compute_ofValue (op : Arithmetic) :
    compute op (ofValue v) (ofValue w) = (op.apply v w).map ofValue := by
  simp only [compute, Arithmetic.apply, toNumber?_ofValue, text_ofValue]
  cases v.toNumber? with
  | none => rfl
  | some x =>
    cases w.toNumber? with
    | none => rfl
    | some y => cases computed : op.onNumbers x y <;> simp [computed, Except.map, ofValue]

theorem count_ofValue (direction : Count) (register : String) :
    count direction register (ofValue v) = (direction.apply register v).map ofValue := by
  simp only [count, Count.apply, toNumber?_ofValue]
  cases v.toNumber? with
  | none => rfl
  | some x => cases direction <;> rfl

end Values

end Cell

namespace Attempt

variable {α β γ : Type}

/-- The attempt with its result changed. -/
def map (g : α → β) (x : Attempt α) : Attempt β := ⟨x.notes, x.warnings, x.result.map g⟩

theorem map_pure (g : α → β) (a : α) : map g (pure a) = pure (g a) := rfl

theorem lift_map (g : α → β) (x : Except Fault α) :
    (liftM (x.map g) : Attempt β) = map g (liftM x) := rfl

theorem map_bind (g : β → γ) (x : Attempt α) (f : α → Attempt β) :
    map g (x >>= f) = x >>= fun a => map g (f a) := by
  obtain ⟨notes, warnings, result⟩ := x
  cases result <;> rfl

theorem bind_map (g : α → β) (x : Attempt α) (f : β → Attempt γ) :
    map g x >>= f = x >>= fun a => f (g a) := by
  obtain ⟨notes, warnings, result⟩ := x
  cases result <;> rfl

end Attempt

namespace Table

variable {α β : Type} (g : α → β) (t : Table α) (name : String)

/-- The same names with other values. -/
def mapValues : Table β := t.map fun entry => (entry.1, g entry.2)

theorem mapValues_cons (entry : String × α) (rest : Table α) :
    mapValues g (entry :: rest) = (entry.1, g entry.2) :: mapValues g rest := rfl

theorem names_mapValues : (t.mapValues g).names = t.names := by
  simp [mapValues, names, Function.comp_def]

theorem find?_mapValues : (t.mapValues g).find? name = (t.find? name).map g := by
  induction t with
  | nil => rfl
  | cons entry rest ih =>
    obtain ⟨key, value⟩ := entry
    rw [mapValues_cons, find?, find?, ih]
    split <;> rfl

theorem contains_mapValues : (t.mapValues g).contains name = t.contains name := by
  rw [contains, contains, find?_mapValues, Option.isSome_map]

theorem replace_mapValues (value : α) :
    (t.mapValues g).replace name (g value) = mapValues g (t.replace name value) := by
  induction t with
  | nil => rfl
  | cons entry rest ih =>
    obtain ⟨key, old⟩ := entry
    rw [mapValues_cons, replace, replace, ih]
    split <;> rfl

theorem put_mapValues (value : α) :
    (t.mapValues g).put name (g value) = mapValues g (t.put name value) := by
  induction t with
  | nil => rfl
  | cons entry rest ih =>
    obtain ⟨key, old⟩ := entry
    rw [mapValues_cons, put, put, ih]
    split <;> rfl

theorem erase_mapValues : (t.mapValues g).erase name = mapValues g (t.erase name) := by
  induction t with
  | nil => rfl
  | cons entry rest ih =>
    obtain ⟨key, old⟩ := entry
    rw [mapValues_cons, erase, erase, ih]
    split <;> rfl

end Table

namespace Cells

def get (cells : Table Cell) (name : String) : Except Fault Cell :=
  match cells.find? name with
  | some c => .ok c
  | none => .error (.noRegister name cells.names)

def set (cells : Table Cell) (name : String) (c : Cell) : Except Fault (Table Cell) :=
  if cells.contains name then .ok (cells.replace name c) else .error (.noRegister name cells.names)

def create (cells : Table Cell) (name : String) : Except Fault (Table Cell) :=
  (Name.check name).map fun _ => cells.put name .null

/-- Follows a path into a cell. -/
def follow (fallback : Fallback) (source parent : String) (c : Cell) : List String → Except Fault Cell
  | [] => .ok c
  | segment :: rest =>
    match c.field? fallback segment with
    | some item => follow fallback source segment item rest
    | none => .error (.noSubitem segment parent source)

def resolvePath (fallback : Fallback) (source : String) (cells : Table Cell) : Except Fault Cell := do
  let (first, others) := Operand.segments source.toList
  let register := String.ofList first
  match cells.find? register with
  | none => .error (.noSource source)
  | some held =>
    let c ← follow fallback source register held (others.map String.ofList)
    if c.isNull then .error (.nullSource source) else .ok c

/-- The cell that an operand stands for. -/
def resolve (fallback : Fallback) (source : String) (cells : Table Cell) : Attempt Cell :=
  match Operand.unquote? source.toList with
  | some s => pure (.string (String.ofList s))
  | none =>
    match Number.read? source with
    | some x => pure (.number x)
    | none =>
      if source = "true" then pure (.boolean true)
      else if source = "false" then pure (.boolean false)
      else if Operand.isBraced source.toList then
        match Json.parse source.toList with
        | .ok document => pure (.ofJson document)
        | .error failure => do
          Attempt.warn (.badJson (failure.message source.toList) source)
          return .null
      else Attempt.ofExcept (resolvePath fallback source cells)

end Cells

namespace Bank

/-- The registers as cells. -/
def cells (b : Bank) : Table Cell := b.registers.mapValues Cell.ofValue

variable (b : Bank) (name : String) (fallback : Fallback)

theorem get_cells : Cells.get b.cells name = (b.get name).map Cell.ofValue := by
  rw [Cells.get, Bank.get, cells, Table.find?_mapValues, Table.names_mapValues, find?]
  cases b.registers.find? name <;> rfl

theorem set_cells (v : Value) :
    Cells.set b.cells name (.ofValue v) = (b.set name v).map cells := by
  rw [Cells.set, Bank.set, cells, Table.contains_mapValues, Table.names_mapValues,
    Table.replace_mapValues, contains]
  split <;> rfl

theorem set_boolean_cells (truth : Bool) :
    Cells.set b.cells name (.boolean truth) = (b.set name (.boolean truth)).map cells :=
  b.set_cells name (.boolean truth)

theorem create_cells : Cells.create b.cells name = (b.create name).map cells := by
  rw [Cells.create, Bank.create, cells]
  cases Name.check name with
  | error fault => rfl
  | ok => exact congrArg Except.ok (Table.put_mapValues Cell.ofValue b.registers name .null)

theorem erase_cells : b.cells.erase name = (b.erase name).cells :=
  Table.erase_mapValues Cell.ofValue b.registers name

theorem follow_cells (source parent : String) (v : Value) (path : List String) :
    Cells.follow fallback source parent (.ofValue v) path =
      (Operand.follow source parent v path).map Cell.ofValue := by
  induction path generalizing parent v with
  | nil => rfl
  | cons segment rest ih =>
    rw [Cells.follow, Operand.follow, Cell.field?_ofValue]
    cases v.field? segment with
    | none => rfl
    | some item => exact ih segment item

theorem resolvePath_cells (source : String) :
    Cells.resolvePath fallback source b.cells =
      (Operand.resolvePath source b).map Cell.ofValue := by
  simp only [Cells.resolvePath, Operand.resolvePath, cells, Table.find?_mapValues, find?]
  cases b.registers.find? _ with
  | none => rfl
  | some held =>
    simp only [Option.map_some, follow_cells]
    cases Operand.follow source _ held _ with
    | error fault => rfl
    | ok v =>
      simp only [Except.map, bind, Except.bind, Cell.isNull_ofValue]
      split <;> rfl

theorem resolve_cells (source : String) :
    Cells.resolve fallback source b.cells = (Operand.resolve source b).map Cell.ofValue := by
  unfold Cells.resolve Operand.resolve
  cases Operand.unquote? source.toList with
  | some s => rfl
  | none =>
    cases Number.read? source with
    | some x => rfl
    | none =>
      by_cases yes : source = "true"
      · rw [if_pos yes, if_pos yes]
        rfl
      · by_cases no : source = "false"
        · rw [if_neg yes, if_pos no, if_neg yes, if_pos no]
          rfl
        · rw [if_neg yes, if_neg no, if_neg yes, if_neg no]
          cases Operand.isBraced source.toList with
          | false =>
            rw [if_neg Bool.false_ne_true, if_neg Bool.false_ne_true, resolvePath_cells]
            rfl
          | true =>
            cases Json.parse source.toList with
            | ok document => exact congrArg pure (Cell.ofValue_ofJson document).symm
            | error failure => rfl

end Bank

/-- What a machine on cells shows of itself: a cell, all its cells, or any other event. -/
inductive Sight where
  | value (c : Cell)
  | registers (cells : Table Cell)
  | event (e : Event)

namespace Sight

def ofEvent : Event → Sight
  | .inspect (.value v) => value (.ofValue v)
  | .inspect (.registers bank) => registers (bank.mapValues .ofValue)
  | e => event e

/-- Structures that are shown are arrays and objects. -/
def Proper : Sight → Prop
  | value c => c.Proper
  | registers cells => ∀ entry ∈ cells, entry.2.Proper
  | event _ => True

end Sight

/-- A machine on cells. -/
structure Rig where
  /-- The machine but for its registers. -/
  machine : Machine
  cells : Table Cell

namespace Rig

/-- What an exit with a cell shows. -/
def exitSights (c : Cell) : List Sight :=
  let shown : List Sight :=
    [.event (.print "Program exited. Result:\n"), .value c, .event (.exit 0)]
  match c with
  | .number x => if 0 ≤ x ∧ x ≤ 255 then [.event (.exit x.toUInt64.toNat)] else shown
  | _ => shown

/-- Carries out an instruction of a line. -/
def perform (fallback : Fallback) (r : Rig) (line : Line) : Instruction → Attempt (Rig × List Sight)
  | .move target source => do
    let _ ← Cells.get r.cells target
    let c ← Cells.resolve fallback source r.cells
    let cells ← Cells.set r.cells target c
    return ({ r with cells := cells }, [])
  | .create register => do
    let cells ← Cells.create r.cells register
    return ({ r with cells := cells }, [])
  | .erase register => return ({ r with cells := r.cells.erase register }, [])
  | .compare left right target => do
    let c ← Cells.resolve fallback left r.cells
    let d ← Cells.resolve fallback right r.cells
    let _ ← Cells.get r.cells target
    let cells ← Cells.set r.cells target (.boolean (c.same d))
    return ({ r with cells := cells }, [])
  | .compute op left right target => do
    let c ← Cells.resolve fallback left r.cells
    let d ← Cells.resolve fallback right r.cells
    let _ ← Cells.get r.cells target
    let result ← Cell.compute op c d
    let cells ← Cells.set r.cells target result
    return ({ r with cells := cells }, [])
  | .count direction register => do
    let current ← Cells.get r.cells register
    let result ← Cell.count direction register current
    let cells ← Cells.set r.cells register result
    return ({ r with cells := cells }, [])
  | .reverse register => do
    let current ← Cells.get r.cells register
    let cells ← Cells.set r.cells register current.reverse
    return ({ r with cells := cells }, [])
  | .print source newline => do
    let c ← Cells.resolve fallback source r.cells
    return (r, [.event (.print (if newline then c.text ++ "\n" else c.text))])
  | .dumpBank => return (r, [.registers r.cells])
  | .dumpValue source => do
    let c ← Cells.resolve fallback source r.cells
    return (r, [.value c])
  | .jumpIf label register => do
    let address ← r.machine.target label
    let condition ← Cells.get r.cells register
    if condition.isTruthy fallback then
      let machine ← r.machine.jump address
      return ({ r with machine := machine }, [])
    else return (r, [])
  | .sleep source => do
    let c ← Cells.resolve fallback source r.cells
    match c.toNumber? with
    | none => Attempt.fail (.notDuration c.text)
    | some x => return (r, [.event (.sleep (Machine.milliseconds x))])
  | .exit (some source) => do
    let c ← Cells.resolve fallback source r.cells
    return ({ r with machine := r.machine.halt }, exitSights c)
  -- No other instruction looks at registers.
  | i =>
    (r.machine.perform line i).map fun (machine, events) =>
      ({ r with machine := machine }, events.map .event)

def attempt (fallback : Fallback) (r : Rig) (line : Line) : Attempt (Rig × List Sight) :=
  match Instruction.decode line with
  | .error fault => Attempt.fail fault
  | .ok i => r.perform fallback line i

/-- Runs a line. -/
def dispatch (fallback : Fallback) (r : Rig) (line : Line) : Rig × List Sight :=
  let ⟨_, warnings, result⟩ := r.attempt fallback line
  let warned := warnings.map fun fault => Sight.event (.warning (fault.report r.machine.line))
  match result with
  | .ok (next, sights) => (next, warned ++ sights)
  | .error fault =>
    ({ r with machine := r.machine.halt },
      warned ++ [.event (.error (fault.report r.machine.line))])

/-- One step. Without a line to carry out, the machine moves on by itself. -/
def step (fallback : Fallback) (r : Rig) : Rig × List Sight :=
  match r.machine.next? with
  | some line => dispatch fallback { r with machine := r.machine.reading line } line
  | none => ({ r with machine := r.machine.step.machine }, r.machine.step.events.map .event)

/-- A machine with its registers as cells. Those of the machine itself are not looked at any more. -/
def ofMachine (m : Machine) : Rig := ⟨{ m with bank := .initial }, m.bank.cells⟩

def ofNext (x : Machine × List Event) : Rig × List Sight := (ofMachine x.1, x.2.map Sight.ofEvent)

theorem exitSights_ofValue (v : Value) :
    exitSights (.ofValue v) = (Machine.exitEvents v).map Sight.ofEvent := by
  cases v with
  | number x =>
    by_cases status : 0 ≤ x ∧ x ≤ 255
    · simp [exitSights, Cell.ofValue, Machine.exitEvents, status, Sight.ofEvent]
    · simp [exitSights, Cell.ofValue, Machine.exitEvents, status, Sight.ofEvent]
  | null | boolean | string | array | object => rfl

variable (fallback : Fallback) (m : Machine) (line : Line)

theorem jump_ofMachine (address : Nat) :
    ((ofMachine m).machine.jump address >>= fun machine =>
        pure (({ ofMachine m with machine := machine } : Rig), ([] : List Sight))) =
      m.jump address >>= fun next => pure (ofNext (next, [])) := by
  have near : (ofMachine m).machine.isLocal address = m.isLocal address := rfl
  rw [Machine.jump, Machine.jump, near]
  cases m.isLocal address <;> rfl

/-- An instruction does to cells what it does to values. -/
theorem perform_ofMachine (i : Instruction) :
    (ofMachine m).perform fallback line i = (m.perform line i).map ofNext := by
  cases i with
  | move | create | erase | compare | compute | count | reverse | print | dumpBank | dumpValue =>
    simp only [perform, Machine.perform, ofMachine, Bank.get_cells, Bank.resolve_cells,
      Bank.set_cells, Bank.set_boolean_cells, Bank.create_cells, Bank.erase_cells,
      Cell.same_ofValue, Cell.compute_ofValue, Cell.count_ofValue, Cell.reverse_ofValue,
      Cell.text_ofValue, Attempt.lift_map, Attempt.bind_map, Attempt.map_bind, Attempt.map_pure]
    rfl
  | dumpFrames | traceFrames | mark => rfl
  | jump label =>
    have found : (ofMachine m).machine.target label = m.target label := rfl
    simp only [perform, Machine.perform, found, Attempt.map_bind]
    congr 1
    funext address
    exact jump_ofMachine m address
  | jumpIf label register =>
    have found : (ofMachine m).machine.target label = m.target label := rfl
    have held : (ofMachine m).cells = m.bank.cells := rfl
    simp only [perform, Machine.perform, found, held, Bank.get_cells, Cell.isTruthy_ofValue,
      Attempt.lift_map, Attempt.bind_map, Attempt.map_bind]
    congr 1
    funext address
    congr 1
    funext condition
    cases condition.isTruthy with
    | true =>
      rw [if_pos rfl, if_pos rfl, Attempt.map_bind]
      exact jump_ofMachine m address
    | false => rfl
  | call name arguments =>
    have known : (ofMachine m).machine.function name = m.function name := rfl
    simp only [perform, Machine.perform, known, Attempt.map_bind, Machine.enter]
    congr 1
    funext region
    have stack : (ofMachine m).machine.stack = m.stack := rfl
    have pc : (ofMachine m).machine.pc = m.pc := rfl
    rw [stack, pc]
    cases m.stack.push _ <;> rfl
  | launch name =>
    have known : (ofMachine m).machine.function name = m.function name := rfl
    simp only [perform, Machine.perform, known, Attempt.map_bind]
    rfl
  | sleep source =>
    have held : (ofMachine m).cells = m.bank.cells := rfl
    simp only [perform, Machine.perform, held, Bank.resolve_cells, Cell.toNumber?_ofValue,
      Cell.text_ofValue, Attempt.bind_map, Attempt.map_bind]
    congr 1
    funext v
    cases v.toNumber? <;> rfl
  | exit source =>
    cases source with
    | none => rfl
    | some source =>
      have held : (ofMachine m).cells = m.bank.cells := rfl
      simp only [perform, Machine.perform, held, Bank.resolve_cells, exitSights_ofValue,
        Attempt.bind_map, Attempt.map_bind]
      rfl

theorem attempt_ofMachine :
    (ofMachine m).attempt fallback line = (m.attempt line).map ofNext := by
  rw [attempt, Machine.attempt]
  cases Instruction.decode line with
  | error fault => rfl
  | ok i => exact perform_ofMachine fallback m line i

theorem dispatch_ofMachine :
    (ofMachine m).dispatch fallback line =
      ofNext ((m.dispatch line).machine, (m.dispatch line).events) := by
  rw [dispatch, Machine.dispatch, attempt_ofMachine]
  rcases m.attempt line with ⟨notes, warnings, result⟩
  cases result with
  | error fault =>
    simp [Attempt.map, Except.map, ofNext, Sight.ofEvent, ofMachine, Machine.halt, Function.comp_def]
  | ok next => simp [Attempt.map, Except.map, ofNext, Sight.ofEvent, ofMachine, Function.comp_def]

/-- Without a line to carry out, a step leaves the registers alone and shows none. -/
theorem step_still {m : Machine} (moving : m.next? = none) :
    m.step.machine.bank = m.bank ∧ m.step.events.map Sight.ofEvent = m.step.events.map .event := by
  have moved := m.step_move
  generalize m.step.machine = next, m.step.events = events at moved
  cases moved with
  | skip | back | leave | finish => exact ⟨rfl, rfl⟩
  | fail line fault found | run line i next own found =>
    rw [moving] at found
    cases found

theorem leave_ofMachine :
    (ofMachine m).machine.leave = { m.leave with machine := (ofMachine m.leave.machine).machine } := by
  cases popped : m.stack.pop? with
  | none => simp [Machine.leave, ofMachine, popped, Machine.halt]
  | some result =>
    obtain ⟨frame, below⟩ := result
    cases origin : frame.returnTo <;> cases empty : below.isEmpty <;>
      simp [Machine.leave, ofMachine, popped, origin, empty, Machine.halt]

theorem step_moving {m : Machine} (moving : m.next? = none) :
    (ofMachine m).machine.step = { m.step with machine := (ofMachine m.step.machine).machine } := by
  have ended : ∀ m : Machine, m.program.line? m.pc = none → m.fetch = ⟨m.halt, [.stopped], []⟩ := by
    intro m none
    simp [Machine.fetch, none]
  have top : (ofMachine m).machine.stack.top? = m.stack.top? := rfl
  have pc : (ofMachine m).machine.pc = m.pc := rfl
  have program : (ofMachine m).machine.program = m.program := rfl
  rw [Machine.step, Machine.step, top, pc, program]
  cases above : m.stack.top? with
  | some frame =>
    by_cases reached : frame.close ≤ m.pc
    · simp only [if_pos reached]
      exact leave_ofMachine m
    · have none : m.program.line? m.pc = none := by simpa [Machine.next?, above, reached] using moving
      simp only [if_neg reached, ended m none, ended (ofMachine m).machine none]
      rfl
  | none =>
    cases owner : m.program.owner? m.pc with
    | some region => rfl
    | none =>
      have none : m.program.line? m.pc = none := by simpa [Machine.next?, above, owner] using moving
      simp only [ended m none, ended (ofMachine m).machine none]
      rfl

/-- A step does to cells what it does to values. -/
theorem step_ofMachine :
    (ofMachine m).step fallback = ofNext (m.step.machine, m.step.events) := by
  have next : (ofMachine m).machine.next? = m.next? := rfl
  rw [step, next]
  cases fetched : m.next? with
  | some line =>
    rw [Machine.step_next fetched]
    exact dispatch_ofMachine fallback (m.reading line) line
  | none =>
    obtain ⟨kept, plain⟩ := step_still fetched
    simp only [ofNext, step_moving fetched, plain]
    rw [ofMachine, ofMachine, kept]

end Rig

/-- A machine on cells that is run in budgets of steps and can be interrupted. -/
structure RigSession where
  rig : Rig
  pending : List Sight
  interrupted : Bool

namespace RigSession

/-- Steps until one shows something, at most the given number of times. -/
def advance (fallback : Fallback) : Nat → Rig → Rig × List Sight
  | 0, r => (r, [])
  | budget + 1, r =>
    match r.step fallback with
    | (next, []) => advance fallback budget next
    | (next, sights) => (next, sights)

def execute (fallback : Fallback) (s : RigSession) (budget : Nat) : Sight × RigSession :=
  match s.pending with
  | sight :: rest => (sight, { s with pending := rest })
  | [] =>
    if !s.rig.machine.running then (.event .stopped, s)
    else if s.interrupted then
      (.event (.error (Fault.interrupted.report s.rig.machine.line)),
        ⟨{ s.rig with machine := s.rig.machine.halt }, [], false⟩)
    else
      match advance fallback budget s.rig with
      | (rig, []) => (.event .running, { s with rig := rig })
      | (rig, sight :: rest) => (sight, { s with rig := rig, pending := rest })

def serve (fallback : Fallback) (s : RigSession) : Request → RigSession
  | .execute budget => (s.execute fallback budget).2
  | .interrupt => { s with interrupted := true }

/-- The session after requests. -/
def after (fallback : Fallback) (s : RigSession) (requests : List Request) : RigSession :=
  requests.foldl (serve fallback) s

/-- What requests are answered with. -/
def answers (fallback : Fallback) (s : RigSession) : List Request → List Sight
  | [] => []
  | .execute budget :: rest =>
    (s.execute fallback budget).1 :: (s.execute fallback budget).2.answers fallback rest
  | .interrupt :: rest => (s.serve fallback .interrupt).answers fallback rest

def ofSession (s : Session) : RigSession :=
  ⟨.ofMachine s.machine, s.pending.map Sight.ofEvent, s.interrupted⟩

variable (fallback : Fallback) (s : Session)

theorem advance_ofMachine (m : Machine) (budget : Nat) (notes : Array Note) :
    advance fallback budget (.ofMachine m) =
      Rig.ofNext ((Session.advance budget m notes).1, (Session.advance budget m notes).2.1) := by
  induction budget generalizing m notes with
  | zero => rfl
  | succ budget ih =>
    rw [advance, Rig.step_ofMachine, Session.advance]
    cases raised : m.step.events with
    | nil => exact ih m.step.machine _
    | cons event rest => rfl

theorem execute_ofSession (budget : Nat) :
    (ofSession s).execute fallback budget =
      (.ofEvent (s.execute budget).event, ofSession (s.execute budget).session) := by
  cases queue : s.pending with
  | cons event rest => simp [execute, Session.execute, ofSession, queue]
  | nil =>
    have running : (Rig.ofMachine s.machine).machine.running = s.machine.running := rfl
    have line : (Rig.ofMachine s.machine).machine.line = s.machine.line := rfl
    have advanced := advance_ofMachine fallback s.machine budget #[]
    rcases reached : Session.advance budget s.machine #[] with ⟨machine, events, notes⟩
    rw [reached] at advanced
    cases going : s.machine.running with
    | false => simp [execute, Session.execute, ofSession, queue, running, going, Sight.ofEvent]
    | true =>
      cases asked : s.interrupted with
      | true =>
        simp only [execute, Session.execute, ofSession, queue, running, line, going, asked]
        rfl
      | false =>
        cases events with
        | nil =>
          simp [execute, Session.execute, ofSession, queue, running, going, asked, advanced,
            reached, Rig.ofNext, Sight.ofEvent]
        | cons event rest =>
          simp [execute, Session.execute, ofSession, queue, running, going, asked, advanced,
            reached, Rig.ofNext]

theorem serve_ofSession (request : Request) :
    (ofSession s).serve fallback request = ofSession (s.serve request) := by
  cases request with
  | interrupt => rfl
  | execute budget => rw [serve, execute_ofSession, Session.serve]

/-- Whatever is asked of them, a session on cells is where the session on values is. -/
theorem after_ofSession (requests : List Request) :
    (ofSession s).after fallback requests = ofSession (s.after requests) := by
  induction requests generalizing s with
  | nil => rfl
  | cons request rest ih =>
    have first := serve_ofSession fallback s request
    have later := ih (s.serve request)
    rw [← first] at later
    exact later

theorem answers_ofSession (requests : List Request) :
    (ofSession s).answers fallback requests = (s.answers requests).map Sight.ofEvent := by
  induction requests generalizing s with
  | nil => rfl
  | cons request rest ih =>
    cases request with
    | interrupt => exact ih s.interrupt
    | execute budget => rw [answers, execute_ofSession, ih, Session.answers, List.map_cons]

end RigSession

end RegisterMachine
