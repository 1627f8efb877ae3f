import RegisterMachine.Session
import RegisterMachine.Shell.Arguments
import RegisterMachine.Shell.Crew

/-!
The shell: it loads a program, runs it in batches, shows its events, starts children for its `async`
calls, and ends with a status. It moves in turns, and a moment says what has happened around it since
the turn before.
-/

namespace RegisterMachine

/-- Text for one of the two streams. -/
inductive Output where
  | out (text : String)
  | err (text : String)
  deriving DecidableEq, Repr

namespace Output

def outText : Output → String
  | out text => text
  | err _ => ""

def errText : Output → String
  | out _ => ""
  | err text => text

end Output

/-- What is shown in place of a run. -/
def Refusal.output : Refusal → Output
  | .help => .out (Refusal.usage ++ "\n")
  | .version => .out "asm\n"
  | refusal => .err ("error: " ++ refusal.message ++ "\n\n" ++ Refusal.usage ++ "\n")

/-- The texts of files by their paths, or why they cannot be read. -/
abbrev Files := String → Except String String

inductive Phase where
  | looping
  | sleeping (milliseconds : Nat)
  | draining
  | ended (status : Nat)
  deriving DecidableEq, Repr

/-- Which of the two streams have colours. -/
structure Colors where
  out : Bool
  err : Bool
  deriving DecidableEq, Repr

/-- The colours that were chosen, given which streams go to a terminal. -/
def Colors.choose (choice : ColorChoice) (terminal : Colors) : Colors :=
  ⟨choice.isEnabled terminal.out, choice.isEnabled terminal.err⟩

structure Shell where
  session : Session
  crew : Crew
  /-- Ctrl-C has been pressed and has not led to anything yet. -/
  pressed : Bool
  colors : Colors
  phase : Phase

/-- What has happened around the shell. -/
structure Moment where
  /-- Ctrl-C has been pressed. -/
  pressed : Bool
  /-- The statuses of children that have finished. -/
  finished : List Nat
  /-- The statuses of children that finish while the shell waits in this turn. -/
  late : List Nat
  /-- The time of the sleep is over. -/
  expired : Bool
  /-- Why a child cannot be started. -/
  refusal : Option String
  deriving DecidableEq, Repr

/-- What a turn does to the outside. -/
inductive Effect where
  | display (output : Output)
  | launch (function : String)
  deriving DecidableEq, Repr

namespace Shell

/-- How many steps the machine does in one turn. -/
def batch : Nat := 5000

/-- The line that reports a problem which ends the run. -/
def report (colors : Colors) (d : Diagnostic) : Output :=
  .err (String.ofList (Dump.paint colors.err .bold d.text.toList) ++ "\n")

/-- Loads the program that the arguments name. -/
def load (files : Files) (a : Arguments) : Except Diagnostic Session :=
  match files a.file with
  | .error reason => .error ((Fault.unreadable a.file reason).report none)
  | .ok source => (Session.load source a.function).2

def start (session : Session) (colors : Colors) : Shell :=
  ⟨session, .empty, false, colors, .looping⟩

def endWith (s : Shell) (status : Nat) : Shell := { s with phase := .ended status }

/-- Reacts to an event of the machine. -/
def handle (s : Shell) (m : Moment) : Event → Shell × List Effect
  | .stopped => ({ s with phase := .draining }, [])
  | .running => (s, [])
  | .print text => (s, [.display (.out text)])
  | .inspect dump => (s, [.display (.out (dump.text s.colors.out ++ "\n"))])
  | .warning d => (s, [.display (.err (d.text ++ "\n"))])
  | .error d => (s.endWith 1, [.display (report s.colors d)])
  | .launch function line =>
    match m.refusal with
    | none => ({ s with crew := s.crew.start }, [.launch function])
    | some reason =>
      (s.endWith 1,
        [.display (report s.colors ((Fault.notStarted function reason).report (some line)))])
  | .sleep milliseconds => ({ s with phase := .sleeping milliseconds }, [])
  | .exit 0 => ({ s with phase := .draining }, [])
  | .exit status => (s.endWith status, [])

/-- A turn of the main loop: Ctrl-C goes on to the machine, a child that failed ends the run, and
else the machine runs up to its next event. -/
def loop (s : Shell) (m : Moment) : Shell × List Effect :=
  let session := if s.pressed then s.session.interrupt else s.session
  match s.crew.reap with
  | (some status, crew) =>
    ({ s with session := session, pressed := false, crew := crew }.endWith status, [])
  | (none, crew) =>
    let answer := session.execute batch
    { s with session := answer.session, pressed := false, crew := crew }.handle m answer.event

/-- One turn. After a sleep that Ctrl-C cut short the main loop goes on and sees Ctrl-C itself. -/
def turn (s : Shell) (m : Moment) : Shell × List Effect :=
  let s := { s with pressed := s.pressed || m.pressed, crew := s.crew.arrive m.finished }
  match s.phase with
  | .looping => s.loop m
  | .sleeping _ =>
    match s.crew.waitTurn s.pressed m.expired m.late with
    | (none, crew) => ({ s with crew := crew }, [])
    | (some (.failed status), crew) => ({ s with crew := crew }.endWith status, [])
    | (some _, crew) => ({ s with crew := crew, phase := .looping }, [])
  | .draining =>
    match s.crew.drainTurn s.pressed m.late with
    | (none, crew) => ({ s with crew := crew }, [])
    | (some .done, crew) => ({ s with crew := crew }.endWith 0, [])
    | (some (.failed status), crew) => ({ s with crew := crew }.endWith status, [])
    | (some .interrupted, crew) =>
      ({ s with crew := crew }.endWith 1,
        [.display (report s.colors (Fault.interrupted.report none))])
  | .ended _ => (s, [])

end Shell

end RegisterMachine
