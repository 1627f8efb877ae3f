import RegisterMachine.Shell.Lookout
import RegisterMachine.Shell.Turn
import RegisterMachine.Shell.Watch

/-!
A simulated run of the shell with its children, and theirs. Each of these members is a shell with its
own turns, and the one whose turn is the earliest moves. A turn in which the machine works through a
whole batch takes a millisecond, sleeps take their time, and everything else takes none.
-/

namespace RegisterMachine

/-- Where a member has got to. -/
inductive Course where
  /-- There is no run: its first turn shows why and ends it. -/
  | refused (output : Output) (status : Nat)
  | running (arguments : Arguments) (shell : Shell)
  | ended (status : Nat)

namespace Course

/-- The start of the run that arguments ask for. -/
def start (files : Files) (terminal : Colors) (arguments : List String) : Course :=
  match Arguments.parse arguments with
  | .error refusal => refused refusal.output refusal.status
  | .ok a =>
    let colors := Colors.choose a.color terminal
    match Shell.load files a with
    | .error d => refused (Shell.report colors d) 1
    | .ok session => running a (.start session colors)

def turn (m : Moment) : Course → Course × List Effect
  | refused output status => (ended status, [.display output])
  | running a shell =>
    let (shell, effects) := shell.turn m
    match shell.phase with
    | .ended status => (ended status, effects)
    | _ => (running a shell, effects)
  | ended status => (ended status, [])

/-- The phase of the shell; one that has not started yet is about to move. -/
def phase : Course → Phase
  | refused .. => .looping
  | running _ shell => shell.phase
  | ended status => .ended status

/-- The arguments for a child that runs a function. -/
def childArguments (function : String) : Course → List String
  | running a shell => a.forChild shell.colors.out function
  | _ => []

end Course

/-- One shell of a simulation. -/
structure Member where
  id : Nat
  /-- The members it descends from, its parent first. -/
  ancestors : List Nat
  course : Course
  /-- It moves no earlier than this. -/
  ready : Nat
  /-- When the sleep ends that it is in. -/
  deadline : Nat
  /-- The statuses of children that have finished since its last turn. -/
  finished : List Nat

namespace Member

/-- When a member moves next, if it does not wait for another one. The signal is the time at which it
will notice Ctrl-C. -/
def nextTurn? (m : Member) (signal : Option Nat) : Option Nat :=
  match m.course with
  | .refused .. => some m.ready
  | .ended _ => none
  | .running _ shell =>
    match shell.phase with
    | .looping => some m.ready
    | .sleeping _ =>
      if m.finished.isEmpty then some (max m.ready ((signal.merge min (some m.deadline)).getD 0))
      else some m.ready
    | .draining =>
      if m.finished.isEmpty ∧ shell.crew.outstanding ≠ 0 then signal.map (max m.ready)
      else some m.ready
    | .ended _ => none

/-- The member after a turn that led it to a course. -/
def moved (m : Member) (now : Nat) (course : Course) (effects : List Effect) : Member :=
  let m' := { m with course := course, ready := now, finished := [] }
  match m.course.phase, course.phase, effects with
  | .looping, .looping, [] => { m' with ready := now + 1 }
  | .looping, .sleeping milliseconds, _ => { m' with deadline := now + milliseconds }
  | _, _, _ => m'

/-- Queues the status of a child that has finished. -/
def hear (m : Member) (now status : Nat) : Member :=
  { m with ready := max m.ready now, finished := m.finished ++ [status] }

end Member

structure Simulation where
  now : Nat
  /-- The members that have not ended, the oldest first. -/
  members : List Member
  /-- The identity of the next member. -/
  fresh : Nat
  /-- The text on the first stream so far. -/
  outText : String
  /-- The text on the second stream so far. -/
  errText : String
  /-- Looks out on the first stream for the text after which Ctrl-C is pressed. -/
  lookout : Option Lookout
  /-- When Ctrl-C is pressed. -/
  signal : Option Nat
  /-- How the first member ended, if it has. -/
  status : Option Nat

namespace Simulation

/-- How long after the awaited text Ctrl-C is pressed. -/
def reactionTime : Nat := 60

/-- The identity of the first member, which is the one that Ctrl-C goes to. -/
def root : Nat := 0

/-- Goes on looking out, or has Ctrl-C pressed some time after the text was noticed. -/
def lookOut (s : Simulation) (l : Lookout) : Simulation :=
  if l.isMet then { s with lookout := none, signal := some (s.now + reactionTime) }
  else { s with lookout := some l }

def start (files : Files) (terminal : Colors) (awaited : Option String)
    (arguments : List String) : Simulation :=
  let s : Simulation :=
    { now := 0
      members := [⟨root, [], .start files terminal arguments, 0, 0, []⟩]
      fresh := root + 1
      outText := ""
      errText := ""
      lookout := none
      signal := none
      status := none }
  match awaited with
  | none => s
  | some text => s.lookOut (.start text.toList)

def display (s : Simulation) : Output → Simulation
  | .err text => { s with errText := s.errText ++ text }
  | .out text =>
    let s := { s with outText := s.outText ++ text }
    match s.lookout with
    | none => s
    | some l => s.lookOut (l.readAll text.toList)

/-- Does to the outside what a turn of a member asks for. The streams of a child are no terminal. -/
def apply (files : Files) (m : Member) (s : Simulation) : Effect → Simulation
  | .display output => s.display output
  | .launch function =>
    let course := Course.start files ⟨false, false⟩ (m.course.childArguments function)
    let child : Member := ⟨s.fresh, m.id :: m.ancestors, course, s.now + startupTime, 0, []⟩
    { s with members := s.members ++ [child], fresh := s.fresh + 1 }

/-- When a member moves next. -/
def nextTurn? (s : Simulation) (m : Member) : Option Nat :=
  m.nextTurn? (if m.id = root then s.signal else none)

/-- Of a member with its time and the best one so far, the one that moves first: the earlier one, at
the same time a descendant before those it descends from, and else the older one. -/
def first (best : Option (Nat × Member)) (time : Nat) (m : Member) : Nat × Member :=
  match best with
  | none => (time, m)
  | some (t, b) =>
    if time < t ∨ (time = t ∧ b.ancestors.length < m.ancestors.length) then (time, m) else (t, b)

/-- The member that moves next, and when. -/
def next? (s : Simulation) : Option (Nat × Member) :=
  s.members.foldl (fun best m =>
    match s.nextTurn? m with
    | none => best
    | some time => some (first best (max s.now time) m)) none

/-- A member ends. What it has started is cut off from the streams, and its parent hears of it. -/
def leave (s : Simulation) (m : Member) (status : Nat) : Simulation :=
  let others := s.members.filter fun o => o.id ≠ m.id ∧ ¬ o.ancestors.contains m.id
  match m.ancestors with
  | [] => { s with members := others, status := some status }
  | parent :: _ =>
    { s with members := others.map fun o => if o.id = parent then o.hear s.now status else o }

/-- The turn of a member at a time. -/
def move (files : Files) (s : Simulation) (now : Nat) (m : Member) : Simulation :=
  let pressed := m.id = root && s.signal.any (· ≤ now)
  let (course, effects) := m.course.turn ⟨pressed, m.finished, [], m.deadline ≤ now, none⟩
  let after := m.moved now course effects
  let s := { s with
    now := now
    members := s.members.map fun o => if o.id = m.id then after else o
    signal := if pressed then none else s.signal }
  let s := effects.foldl (apply files after) s
  match course with
  | .ended status => s.leave m status
  | _ => s

/-- Turns until the first member has ended, at most the given number of them. -/
def run (files : Files) : Nat → Simulation → Simulation
  | 0, s => s
  | turns + 1, s =>
    match s.status, s.next? with
    | none, some (now, m) => run files turns (s.move files now m)
    | _, _ => s

end Simulation

end RegisterMachine
