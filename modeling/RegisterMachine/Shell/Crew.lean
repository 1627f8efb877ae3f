/-!
The crew: the bookkeeping of child processes. A child that finishes is queued with its status, and
the queue is read from its front; a status other than 0 is a failure, and nothing after it is read.
-/

namespace RegisterMachine

structure Crew where
  /-- How many children have been started and not been read from the queue. -/
  outstanding : Nat
  /-- The statuses of children that have finished, the earliest first. -/
  queue : List Nat
  deriving DecidableEq, Repr

/-- How a wait for children ends. -/
inductive Wait where
  | done
  | failed (status : Nat)
  | interrupted
  deriving DecidableEq, Repr

namespace Crew

def empty : Crew := ⟨0, []⟩

def start (c : Crew) : Crew := { c with outstanding := c.outstanding + 1 }

/-- Children finish with the given statuses. -/
def arrive (c : Crew) (statuses : List Nat) : Crew := { c with queue := c.queue ++ statuses }

/-- Reads a queue up to its first failure. -/
def reapFrom (outstanding : Nat) : List Nat → Option Nat × Crew
  | [] => (none, ⟨outstanding, []⟩)
  | status :: rest =>
    if status = 0 then reapFrom (outstanding - 1) rest else (some status, ⟨outstanding - 1, rest⟩)

/-- Reads everything that is queued, or up to a failure. -/
def reap (c : Crew) : Option Nat × Crew := reapFrom c.outstanding c.queue

/-- Reads one status, if there is one. -/
def poll (c : Crew) : Option Wait × Crew :=
  match c.queue with
  | [] => (none, c)
  | status :: rest =>
    (if status = 0 then none else some (.failed status), ⟨c.outstanding - 1, rest⟩)

/-- One turn of a wait: everything that is queued is read, then an interruption counts, then the end
of the time, and else the next child is waited for, while which the `late` ones finish. -/
def waitTurn (c : Crew) (interrupted expired : Bool) (late : List Nat) : Option Wait × Crew :=
  match c.reap with
  | (some status, c) => (some (.failed status), c)
  | (none, c) =>
    if interrupted then (some .interrupted, c)
    else if expired then (some .done, c)
    else (c.arrive late).poll

/-- One turn of a wait for all children. -/
def drainTurn (c : Crew) (interrupted : Bool) (late : List Nat) : Option Wait × Crew :=
  if c.outstanding = 0 then (some .done, c) else c.waitTurn interrupted false late

end Crew

end RegisterMachine
