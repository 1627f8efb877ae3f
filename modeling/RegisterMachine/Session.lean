import RegisterMachine.Machine

/-!
Sessions: a machine that is run in budgets of steps, gives out one event at a time and can be
interrupted.
-/

namespace RegisterMachine

structure Session where
  machine : Machine
  /-- Events that are still to be given out. -/
  pending : List Event
  interrupted : Bool

namespace Session

def ofMachine (machine : Machine) : Session := ⟨machine, [], false⟩

/-- A session on a program text, from its first line or in one of its functions only. -/
def load (source : String) (entry : Option String) : List Note × Except Diagnostic Session :=
  match Program.compile (Listing.ofSource source) with
  | (notes, .error diagnostic) => (notes, .error diagnostic)
  | (notes, .ok program) =>
    match entry with
    | none => (notes, .ok (ofMachine (Machine.start program)))
    | some function =>
      let attempt := Machine.startAt program function
      (notes ++ attempt.notes,
        match attempt.result with
        | .ok machine => .ok (ofMachine machine)
        | .error fault => .error (fault.report none))

/-- Asks the machine to stop before its next step. -/
def interrupt (s : Session) : Session := { s with interrupted := true }

/-- Steps until one has events, at most the given number of times. -/
def advance : Nat → Machine → Array Note → Machine × List Event × Array Note
  | 0, m, notes => (m, [], notes)
  | budget + 1, m, notes =>
    let outcome := m.step
    let notes := notes.appendList outcome.notes
    match outcome.events with
    | [] => advance budget outcome.machine notes
    | events => (outcome.machine, events, notes)

/-- The answer to a request for an event. -/
structure Answer where
  event : Event
  session : Session
  notes : Array Note

/-- The next event, after at most the given number of steps. Events that wait come first. -/
def execute (s : Session) (budget : Nat) : Answer :=
  match s.pending with
  | event :: rest => ⟨event, { s with pending := rest }, #[]⟩
  | [] =>
    if !s.machine.running then ⟨.stopped, s, #[]⟩
    else if s.interrupted then
      ⟨.error (Fault.interrupted.report s.machine.line), ⟨s.machine.halt, [], false⟩, #[]⟩
    else
      match advance budget s.machine #[] with
      | (machine, [], notes) => ⟨.running, { s with machine := machine }, notes⟩
      | (machine, event :: rest, notes) =>
        ⟨event, { s with machine := machine, pending := rest }, notes⟩

/-- Up to the given number of events, the last of them `stopped` if the run ends before. -/
def collect (budget : Nat) : Nat → Session → List Event → List Event × Session
  | 0, s, seen => (seen.reverse, s)
  | events + 1, s, seen =>
    let answer := s.execute budget
    match answer.event with
    | .stopped => ((.stopped :: seen).reverse, answer.session)
    | event => collect budget events answer.session (event :: seen)

end Session

end RegisterMachine
