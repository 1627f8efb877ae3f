import RegisterMachine.Shell.Crew

/-!
A crew on simulated time: its children finish at times that are known when they start. Times are
milliseconds.
-/

namespace RegisterMachine

/-- How long a child takes to start. -/
def startupTime : Nat := 1

/-- When running children will finish and with which statuses, the earliest first. -/
abbrev Agenda := List (Nat × Nat)

namespace Agenda

/-- Adds a child after all that finish no later. -/
def add (time status : Nat) : Agenda → Agenda
  | [] => [(time, status)]
  | (first, other) :: rest =>
    if first ≤ time then (first, other) :: add time status rest
    else (time, status) :: (first, other) :: rest

/-- The statuses of the children that have finished by a time. -/
def past (a : Agenda) (now : Nat) : List Nat :=
  (a.takeWhile fun entry => entry.1 ≤ now).map Prod.snd

/-- The children that are still running after a time. -/
def future (a : Agenda) (now : Nat) : Agenda := a.dropWhile fun entry => entry.1 ≤ now

/-- When the next child finishes. -/
def next? (a : Agenda) : Option Nat := a.head?.map Prod.fst

end Agenda

structure Watch where
  now : Nat
  agenda : Agenda
  crew : Crew
  deriving DecidableEq, Repr

namespace Watch

def empty : Watch := ⟨0, [], .empty⟩

/-- Starts a child that finishes with a status after some time. -/
def spawn (w : Watch) (milliseconds status : Nat) : Watch :=
  { w with
    agenda := w.agenda.add (w.now + startupTime + milliseconds) status
    crew := w.crew.start }

/-- Moves to a time and queues the children that have finished by then. -/
def moveTo (w : Watch) (now : Nat) : Watch :=
  ⟨now, w.agenda.future now, w.crew.arrive (w.agenda.past now)⟩

def reap (w : Watch) : Option Nat × Watch :=
  let w := w.moveTo w.now
  let (status, crew) := w.crew.reap
  (status, { w with crew := crew })

/-- Turns of a wait, each when the next child finishes or at the end of the time given. The first
argument bounds their number. -/
def wait (turn : Crew → Bool → Option Wait × Crew) (deadline : Option Nat) :
    Nat → Watch → Wait × Watch
  | 0, w => (.done, w)
  | turns + 1, w =>
    let w := w.moveTo w.now
    match turn w.crew (deadline.any (· ≤ w.now)) with
    | (some result, crew) => (result, { w with crew := crew })
    | (none, crew) =>
      let next := (w.agenda.next?.merge min deadline).getD w.now
      wait turn deadline turns ({ w with crew := crew }.moveTo next)

def sleep (w : Watch) (milliseconds : Nat) (interrupted : Bool) : Wait × Watch :=
  wait (fun crew expired => crew.waitTurn interrupted expired []) (some (w.now + milliseconds))
    (w.agenda.length + 2) w

def drain (w : Watch) (interrupted : Bool) : Wait × Watch :=
  wait (fun crew _ => crew.drainTurn interrupted []) none (w.agenda.length + 2) w

end Watch

end RegisterMachine
