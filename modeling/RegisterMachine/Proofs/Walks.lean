import Mathlib.Data.List.Induction
import RegisterMachine.Proofs.Moves

/-!
Runs of a machine and of a session. `Machine.walk` takes steps one after another, `Session.after`
serves requests one after another, and `Session.Reply` lists how a request for an event can be
answered. Whatever is asked of a session, its machine is one that it walks to, or that machine halted
by an interrupt (`after_machine`).
-/

namespace RegisterMachine

namespace Machine

/-- The machine after a number of steps. A machine whose run has ended stays as it is. -/
def walk (m : Machine) : Nat → Machine
  | 0 => m
  | n + 1 => if (m.walk n).running then (m.walk n).step.machine else m.walk n

/-- What the next step raises, if there is one. -/
def emits (m : Machine) : List Event := if m.running then m.step.events else []

/-- What a number of steps raise, in order. -/
def raised (m : Machine) : Nat → List Event
  | 0 => []
  | n + 1 => m.raised n ++ (m.walk n).emits

/-- How many steps a budget is spent on. The first step with events is the last one. -/
def span (m : Machine) : Nat → Nat
  | 0 => 0
  | budget + 1 => if m.step.events.isEmpty then m.step.machine.span budget + 1 else 1

theorem walk_running {m : Machine} {n : Nat} (running : (m.walk n).running = true) :
    m.walk (n + 1) = (m.walk n).step.machine := by
  simp [walk, running]

theorem walk_ended {m : Machine} {n : Nat} (ended : (m.walk n).running = false) (k : Nat) :
    m.walk (n + k) = m.walk n := by
  induction k with
  | zero => rfl
  | succ k ih =>
    rw [← Nat.add_assoc, walk, ih]
    simp [ended]

theorem walk_add (m : Machine) (n k : Nat) : m.walk (n + k) = (m.walk n).walk k := by
  induction k with
  | zero => rfl
  | succ k ih =>
    rw [← Nat.add_assoc]
    simp only [walk, ih]

theorem walk_first {m : Machine} (running : m.running = true) (n : Nat) :
    m.walk (n + 1) = m.step.machine.walk n := by
  rw [Nat.add_comm, walk_add]
  simp [walk, running]

theorem raised_add (m : Machine) (n k : Nat) :
    m.raised (n + k) = m.raised n ++ (m.walk n).raised k := by
  induction k with
  | zero => simp [raised]
  | succ k ih =>
    rw [← Nat.add_assoc]
    simp only [raised, ih, walk_add, List.append_assoc]

theorem raised_one (m : Machine) : m.raised 1 = m.emits := by
  simp [raised, walk]

theorem raised_first {m : Machine} (running : m.running = true) (n : Nat) :
    m.raised (n + 1) = m.step.events ++ m.step.machine.raised n := by
  rw [Nat.add_comm, raised_add, raised_one]
  simp [walk, emits, running]

/-- Steps without events and one more raise what that one raises. -/
theorem raised_loud {m : Machine} {k : Nat} (quiet : m.raised k = [])
    (awake : (m.walk k).running = true) : m.raised (k + 1) = (m.walk k).step.events := by
  simp [raised, quiet, emits, awake]

theorem raised_ended {m : Machine} {n : Nat} (ended : (m.walk n).running = false) (k : Nat) :
    m.raised (n + k) = m.raised n := by
  induction k with
  | zero => rfl
  | succ k ih =>
    rw [← Nat.add_assoc, raised, ih, walk_ended ended]
    simp [emits, ended]

theorem Effect.ends {m next : Machine} {line : Line} {i : Instruction} (effect : m.Effect line i next) :
    (next.running = m.running ∧ ∀ source, i ≠ .exit source) ∨
      ∃ source, i = .exit source ∧ next = m.halt := by
  cases effect with
  | work bank plain =>
    refine .inl ⟨rfl, ?_⟩
    rintro source rfl
    cases plain
  | goto target taken | defer target taken =>
    refine .inl ⟨rfl, ?_⟩
    rintro source rfl
    cases taken
  | call => exact .inl ⟨rfl, fun source same => by cases same⟩
  | exit source => exact .inr ⟨source, rfl, rfl⟩

/-- An exit raises its status last. -/
theorem exit_last {source : Option String} {own : List Event}
    (gives : (Instruction.exit source).Gives own) :
    ∃ shown status, own = shown ++ [.exit status] ∧
      (shown = [] ∨ ∃ text dump, shown = [.print text, .inspect dump]) := by
  cases source with
  | none => exact ⟨[], 0, gives, .inl rfl⟩
  | some source =>
    rcases gives with ⟨status, rfl⟩ | ⟨value, _, rfl⟩
    · exact ⟨[], status, rfl, .inl rfl⟩
    · exact ⟨_, 0, rfl, .inr ⟨_, _, rfl⟩⟩

/-- The run goes on after a step without events. -/
theorem Move.goes_on {m next : Machine} {events : List Event} (move : m.Move next events)
    (running : m.running = true) (silent : events = []) : next.running = true := by
  cases move with
  | skip | back => exact running
  | leave | finish => cases silent
  | fail => simp at silent
  | run line i next own _ _ effect gives =>
    rcases effect.ends with ⟨same, _⟩ | ⟨source, rfl, _⟩
    · exact same.trans running
    · obtain ⟨shown, status, rfl, _⟩ := exit_last gives
      simp at silent

theorem step_goes_on {m : Machine} (running : m.running = true) (silent : m.step.events = []) :
    m.step.machine.running = true :=
  m.step_move.goes_on running silent

/-- Steps without events keep a machine running, and each of them raises nothing. -/
theorem silent_walk {m : Machine} (running : m.running = true) {n : Nat} (silent : m.raised n = []) :
    (m.walk n).running = true ∧ ∀ i, i < n → (m.walk i).step.events = [] := by
  induction n with
  | zero => exact ⟨running, fun i lt => absurd lt (Nat.not_lt_zero i)⟩
  | succ n ih =>
    obtain ⟨before, last⟩ := List.append_eq_nil_iff.mp silent
    obtain ⟨awake, each⟩ := ih before
    have quiet : (m.walk n).step.events = [] := by simpa [emits, awake] using last
    refine ⟨by rw [walk_running awake]; exact step_goes_on awake quiet, fun i lt => ?_⟩
    by_cases earlier : i < n
    · exact each i earlier
    · have same : i = n := by omega
      rw [same, quiet]

/-- A budget runs out in silence, or its last step is the first one with events. -/
theorem span_cases {m : Machine} (running : m.running = true) (budget : Nat) :
    (m.span budget = budget ∧ m.raised budget = []) ∨
      ∃ k, m.span budget = k + 1 ∧ k < budget ∧ m.raised k = [] ∧ (m.walk k).running = true ∧
        (m.walk k).step.events ≠ [] := by
  induction budget generalizing m with
  | zero => exact .inl ⟨rfl, rfl⟩
  | succ budget ih =>
    by_cases silent : m.step.events = []
    · have awake := step_goes_on running silent
      simp only [span, silent, List.isEmpty_nil, if_true, raised_first running, List.nil_append]
      rcases ih awake with ⟨all, quiet⟩ | ⟨k, spent, lt, quiet, going, loud⟩
      · exact .inl ⟨by rw [all], quiet⟩
      · refine .inr ⟨k + 1, by rw [spent], by omega, ?_, ?_, ?_⟩
        · rw [raised_first running, silent, quiet, List.nil_append]
        · rw [walk_first running]
          exact going
        · rw [walk_first running]
          exact loud
    · exact .inr ⟨0, by simp [span, silent], by omega, rfl, running, silent⟩

end Machine

/-- What can be asked of a session. -/
inductive Request where
  | execute (budget : Nat)
  | interrupt
  deriving DecidableEq, Repr

namespace Session

/-- How many steps a request makes the machine take. -/
def effort (s : Session) : Request → Nat
  | .execute budget =>
    if s.pending.isEmpty && s.machine.running && !s.interrupted then s.machine.span budget else 0
  | .interrupt => 0

theorem advance_eq {m : Machine} (running : m.running = true) (budget : Nat) (notes : Array Note) :
    ∃ more, advance budget m notes = (m.walk (m.span budget), m.raised (m.span budget), more) := by
  induction budget generalizing m notes with
  | zero => exact ⟨notes, rfl⟩
  | succ budget ih =>
    by_cases silent : m.step.events = []
    · have awake := Machine.step_goes_on running silent
      obtain ⟨more, reached⟩ := ih awake (notes.appendList m.step.notes)
      refine ⟨more, ?_⟩
      simp only [advance, silent, reached, Machine.span, List.isEmpty_nil, if_true,
        Machine.walk_first running, Machine.raised_first running, List.nil_append]
    · refine ⟨notes.appendList m.step.notes, ?_⟩
      have once : m.span (budget + 1) = 1 := by simp [Machine.span, silent]
      rw [once, Machine.raised_one]
      cases events : m.step.events with
      | nil => exact absurd events silent
      | cons event rest => simp [advance, events, Machine.walk, Machine.emits, running]

/-- How a request for an event can be answered, and in how many steps: with an event that waits, with
the end of the run, with the interrupt that was asked for, with silence for the whole budget, or with
the first event of the first step that has any. -/
inductive Reply (s : Session) (budget : Nat) : Nat → Event → Session → Prop
  | waiting (event : Event) (rest : List Event) (queue : s.pending = event :: rest) :
      Reply s budget 0 event { s with pending := rest }
  | ended (clear : s.pending = []) (ended : s.machine.running = false) : Reply s budget 0 .stopped s
  | broken (clear : s.pending = []) (running : s.machine.running = true)
      (asked : s.interrupted = true) :
      Reply s budget 0 (.error (Fault.interrupted.report s.machine.line)) ⟨s.machine.halt, [], false⟩
  | silent (clear : s.pending = []) (running : s.machine.running = true)
      (unasked : s.interrupted = false) (quiet : s.machine.raised budget = []) :
      Reply s budget budget .running { s with machine := s.machine.walk budget }
  | spoken (k : Nat) (event : Event) (rest : List Event) (clear : s.pending = [])
      (running : s.machine.running = true) (unasked : s.interrupted = false)
      (quiet : s.machine.raised k = []) (awake : (s.machine.walk k).running = true)
      (loud : (s.machine.walk k).step.events = event :: rest) :
      Reply s budget (k + 1) event { s with machine := s.machine.walk (k + 1), pending := rest }

theorem execute_reply (s : Session) (budget : Nat) :
    s.Reply budget (s.effort (.execute budget)) (s.execute budget).event
      (s.execute budget).session := by
  cases queue : s.pending with
  | cons event rest => simpa [execute, effort, queue] using Reply.waiting event rest queue
  | nil =>
    cases running : s.machine.running with
    | false => simpa [execute, effort, queue, running] using Reply.ended queue running
    | true =>
      cases asked : s.interrupted with
      | true => simpa [execute, effort, queue, running, asked] using Reply.broken queue running asked
      | false =>
        have spends : s.effort (.execute budget) = s.machine.span budget := by
          simp [effort, queue, running, asked]
        obtain ⟨notes, advanced⟩ := advance_eq running budget #[]
        rcases Machine.span_cases running budget with ⟨spent, quiet⟩ | ⟨k, spent, _, quiet, awake, loud⟩
        · have reply := Reply.silent queue running asked quiet
          rw [spent, quiet] at advanced
          simpa [execute, queue, running, asked, advanced, spends, spent] using reply
        · obtain ⟨event, rest, events⟩ := List.exists_cons_of_ne_nil loud
          have reply : s.Reply budget _ _ _ :=
            .spoken k event rest queue running asked quiet awake events
          have raised := (Machine.raised_loud quiet awake).trans events
          rw [spent, raised] at advanced
          simpa [execute, queue, running, asked, advanced, spends, spent] using reply

/-- The session after a request. -/
def serve (s : Session) : Request → Session
  | .execute budget => (s.execute budget).session
  | .interrupt => s.interrupt

/-- The session after requests. -/
def after (s : Session) (requests : List Request) : Session := requests.foldl serve s

/-- The events that requests are answered with. -/
def answers (s : Session) : List Request → List Event
  | [] => []
  | .execute budget :: rest => (s.execute budget).event :: (s.execute budget).session.answers rest
  | .interrupt :: rest => s.interrupt.answers rest

/-- How many steps requests make the machine take. -/
def taken (s : Session) : List Request → Nat
  | [] => 0
  | request :: rest => s.effort request + (s.serve request).taken rest

theorem after_append (s : Session) (first last : List Request) :
    s.after (first ++ last) = (s.after first).after last := List.foldl_append

@[simp] theorem after_concat (s : Session) (requests : List Request) (request : Request) :
    s.after (requests ++ [request]) = (s.after requests).serve request := by
  rw [after_append]
  rfl

theorem answers_append (s : Session) (first last : List Request) :
    s.answers (first ++ last) = s.answers first ++ (s.after first).answers last := by
  induction first generalizing s with
  | nil => rfl
  | cons request rest ih => cases request <;> simp [answers, ih, after, serve]

theorem taken_append (s : Session) (first last : List Request) :
    s.taken (first ++ last) = s.taken first + (s.after first).taken last := by
  induction first generalizing s with
  | nil => simp [taken, after]
  | cons request rest ih =>
    simp only [List.cons_append, taken, ih, after, List.foldl_cons]
    omega

@[simp] theorem taken_concat (s : Session) (requests : List Request) (request : Request) :
    s.taken (requests ++ [request]) = s.taken requests + (s.after requests).effort request := by
  simp [taken_append, taken]

/-- A request makes the machine walk as far as its effort, or halts it by an interrupt. -/
theorem serve_machine (s : Session) (request : Request) :
    (s.serve request).machine = s.machine.walk (s.effort request) ∨
      s.machine.running = true ∧ s.effort request = 0 ∧ (s.serve request).machine = s.machine.halt := by
  cases request with
  | interrupt => exact .inl rfl
  | execute budget =>
    have reply := s.execute_reply budget
    simp only [serve]
    generalize s.effort (.execute budget) = steps, (s.execute budget).event = event,
      (s.execute budget).session = next at reply
    cases reply with
    | waiting | ended | silent | spoken => exact .inl rfl
    | broken clear running asked => exact .inr ⟨running, rfl, rfl⟩

theorem effort_ended {s : Session} (ended : s.machine.running = false) (request : Request) :
    s.effort request = 0 := by
  cases request <;> simp [effort, ended]

/-- Whatever is asked, the machine is one that the first machine walks to, or that one halted. -/
theorem after_machine (s : Session) (requests : List Request) :
    (s.after requests).machine = s.machine.walk (s.taken requests) ∨
      (s.after requests).machine = (s.machine.walk (s.taken requests)).halt := by
  induction requests using List.reverseRecOn with
  | nil => exact .inl rfl
  | append_singleton requests request ih =>
    rw [after_concat, taken_concat]
    rcases ih with same | halted
    · rcases (s.after requests).serve_machine request with walked | ⟨_, idle, stopped⟩
      · exact .inl (by rw [walked, same, Machine.walk_add])
      · exact .inr (by rw [stopped, idle, same, Nat.add_zero])
    · have ended : (s.after requests).machine.running = false := by rw [halted]; rfl
      rcases (s.after requests).serve_machine request with walked | ⟨running, _, _⟩
      · rw [walked, effort_ended ended, halted]
        exact .inr rfl
      · rw [running] at ended
        cases ended

end Session

end RegisterMachine
