import RegisterMachine.Proofs.Placement

/-!
Batching and interruption. Whatever budgets a session is run in, it shows the events of the same
steps in the same order: what it has shown, with what still waits, is what the steps taken so far have
raised (`Progress`). So it shows a prefix of what steps one at a time show, and an interrupt only cuts
that prefix off (`shown_agrees`).
-/

namespace RegisterMachine

/-- Only says that the budget is used up. -/
def Event.isRunning : Event → Bool
  | .running => true
  | _ => false

namespace Machine

/-- No step says that a budget is used up. -/
theorem Move.speaks {m next : Machine} {events : List Event} (move : m.Move next events) :
    ∀ event ∈ events, event.isRunning = false := by
  have warnings (line : Line) : ∀ event ∈ m.warned line, event.isRunning = false :=
    warned_all (fun _ => rfl) m line
  cases move with
  | skip | back => simp
  | leave | finish => simp [Event.isRunning]
  | fail line fault =>
    intro event member
    rcases List.mem_append.mp member with warning | own
    · exact warnings line event warning
    · rw [List.mem_singleton.mp own]
      rfl
  | run line i next own fetched decoded effect gives =>
    intro event member
    rcases List.mem_append.mp member with warning | own
    · exact warnings line event warning
    · exact gives.all (P := fun event => event.isRunning = false) (fun _ => rfl) (fun _ => rfl)
        (fun _ _ => rfl) (fun _ => rfl) (fun _ _ => rfl) event own

theorem raised_speaks (m : Machine) (n : Nat) : ∀ event ∈ m.raised n, event.isRunning = false := by
  induction n with
  | zero => simp [raised]
  | succ n ih =>
    intro event member
    rcases List.mem_append.mp member with earlier | last
    · exact ih event earlier
    · unfold emits at last
      split at last
      · exact (m.walk n).step_move.speaks event last
      · cases last

end Machine

namespace Session

/-- The answers to requests, less those that only say that a budget is used up. -/
def shown (s : Session) (requests : List Request) : List Event :=
  (s.answers requests).filter fun event => !event.isRunning

theorem shown_append (s : Session) (first last : List Request) :
    s.shown (first ++ last) = s.shown first ++ (s.after first).shown last := by
  simp [shown, answers_append]

theorem shown_execute (s : Session) (budget : Nat) :
    s.shown [.execute budget] =
      if (s.execute budget).event.isRunning then [] else [(s.execute budget).event] := by
  cases running : (s.execute budget).event.isRunning <;> simp [shown, answers, running]

@[simp] theorem shown_interrupt (s : Session) : s.shown [.interrupt] = [] := rfl

/-- What a session has shown and what waits in it, against the first `n` steps of its machine. Either
they are what these steps raised, followed by as many ends as were asked for after the run; or an
interrupt came, after all that these steps raised, and named the line that the machine was at. -/
inductive Progress (m : Machine) (n : Nat) (shown : List Event) (s : Session) : Prop
  | whole (ends : Nat) (machine : s.machine = m.walk n)
      (events : shown ++ s.pending = m.raised n ++ List.replicate ends .stopped)
      (closed : 0 < ends → s.machine.running = false ∧ s.pending = [])
  | broken (ends : Nat) (machine : s.machine = (m.walk n).halt) (clear : s.pending = [])
      (events : shown = m.raised n ++
        .error (Fault.interrupted.report (m.walk n).line) :: List.replicate ends .stopped)

theorem Progress.waiting_speaks {m : Machine} {n ends : Nat} {shown : List Event} {s : Session}
    (events : shown ++ s.pending = m.raised n ++ List.replicate ends .stopped) :
    ∀ event ∈ s.pending, event.isRunning = false := by
  intro event member
  have among : event ∈ m.raised n ++ List.replicate ends .stopped :=
    events ▸ List.mem_append_right _ member
  rcases List.mem_append.mp among with raised | stopped
  · exact m.raised_speaks n event raised
  · rw [(List.mem_replicate.mp stopped).2]
    rfl

theorem Progress.execute {m : Machine} {n : Nat} {shown : List Event} {s : Session}
    (progress : Progress m n shown s) (budget : Nat) :
    Progress m (n + s.effort (.execute budget)) (shown ++ s.shown [.execute budget])
      (s.execute budget).session := by
  have reply := s.execute_reply budget
  rw [shown_execute]
  generalize s.effort (.execute budget) = steps, (s.execute budget).event = event,
    (s.execute budget).session = next at reply
  cases progress with
  | whole ends machine events closed =>
    -- While the run goes on, nothing but its events has been shown.
    have unended (running : s.machine.running = true) : ends = 0 := by
      by_contra positive
      have ended := (closed (by omega)).1
      rw [running] at ended
      cases ended
    cases reply with
    | waiting event rest queue =>
      have speaks := Progress.waiting_speaks events event (by simp [queue])
      refine .whole ends machine ?_ ?_
      · simpa [speaks, queue] using events
      · intro positive
        have clear := (closed positive).2
        rw [queue] at clear
        cases clear
    | ended clear ended =>
      refine .whole (ends + 1) machine ?_ (fun _ => ⟨ended, clear⟩)
      rw [clear, List.append_nil] at events
      simp [Event.isRunning, clear, events, List.replicate_succ']
    | broken clear running asked =>
      refine .broken 0 (congrArg Machine.halt machine) rfl ?_
      rw [clear, unended running] at events
      simpa [Event.isRunning, machine] using events
    | silent clear running unasked quiet =>
      refine .whole 0 ?_ ?_ (fun positive => absurd positive (Nat.lt_irrefl 0))
      · rw [Machine.walk_add m n, ← machine]
      · rw [clear, unended running] at events
        rw [machine] at quiet
        simpa [Event.isRunning, clear, Machine.raised_add, quiet] using events
    | spoken k event rest clear running unasked quiet awake loud =>
      have speaks : event.isRunning = false :=
        (s.machine.walk k).step_move.speaks event (by simp [loud])
      have raised := (Machine.raised_loud quiet awake).trans loud
      refine .whole 0 ?_ ?_ (fun positive => absurd positive (Nat.lt_irrefl 0))
      · rw [Machine.walk_add m n, ← machine]
      · rw [clear, unended running] at events
        have before : shown = m.raised n := by simpa using events
        rw [Machine.raised_add, ← machine, raised]
        simp [speaks, before]
  | broken ends machine clear events =>
    have ended : s.machine.running = false := by
      rw [machine]
      rfl
    cases reply with
    | waiting event rest queue =>
      rw [queue] at clear
      cases clear
    | ended =>
      refine .broken (ends + 1) machine clear ?_
      simp [Event.isRunning, events, List.replicate_succ']
    | broken _ running | silent _ running | spoken _ _ _ _ running =>
      rw [ended] at running
      cases running

theorem after_progress {m : Machine} (requests : List Request) :
    Progress m ((ofMachine m).taken requests) ((ofMachine m).shown requests)
      ((ofMachine m).after requests) := by
  induction requests using List.reverseRecOn with
  | nil => exact .whole 0 rfl rfl (fun positive => absurd positive (Nat.lt_irrefl 0))
  | append_singleton requests request ih =>
    rw [taken_concat, shown_append, after_concat]
    cases request with
    | execute budget => exact ih.execute budget
    | interrupt =>
      rw [shown_interrupt, List.append_nil]
      cases ih with
      | whole ends machine events closed => exact .whole ends machine events closed
      | broken ends machine clear events => exact .broken ends machine clear events

/-- Requests for one step at a time. -/
def singly (calls : Nat) : List Request := List.replicate calls (.execute 1)

theorem singly_add (a b : Nat) : singly (a + b) = singly a ++ singly b := by
  simp [singly, List.replicate_append_replicate]

/-- Events that wait are given out one by one. -/
theorem drain (m : Machine) (pending : List Event)
    (speaks : ∀ event ∈ pending, event.isRunning = false) :
    (⟨m, pending, false⟩ : Session).after (singly pending.length) = ⟨m, [], false⟩ ∧
      (⟨m, pending, false⟩ : Session).shown (singly pending.length) = pending := by
  induction pending with
  | nil => exact ⟨rfl, rfl⟩
  | cons event rest ih =>
    obtain ⟨after, shown⟩ := ih fun other member => speaks other (List.mem_cons_of_mem _ member)
    have first := speaks event List.mem_cons_self
    rw [List.length_cons, Nat.add_comm, singly_add, after_append, shown_append]
    constructor
    · exact after
    · change _ ++ (⟨m, rest, false⟩ : Session).shown (singly rest.length) = _
      rw [shown]
      simp [singly, shown_execute, execute, first]

/-- One call takes a step, and as many more as there are other events give them all out. -/
theorem singly_step {m : Machine} (running : m.running = true) :
    ∃ calls, (ofMachine m).after (singly calls) = ofMachine m.step.machine ∧
      (ofMachine m).shown (singly calls) = m.step.events := by
  have speaks := m.step_move.speaks
  cases events : m.step.events with
  | nil =>
    refine ⟨1, ?_, ?_⟩
    · simp [singly, Session.after, serve, ofMachine, execute, advance, running, events]
    · simp [singly, shown_execute, ofMachine, execute, advance, running, events, Event.isRunning]
  | cons event rest =>
    rw [events] at speaks
    have first := speaks event List.mem_cons_self
    obtain ⟨emptied, given⟩ := drain m.step.machine rest
      fun other member => speaks other (List.mem_cons_of_mem _ member)
    have taken : (ofMachine m).execute 1 =
        ⟨event, ⟨m.step.machine, rest, false⟩, (#[] : Array Note).appendList m.step.notes⟩ := by
      simp [ofMachine, execute, advance, running, events]
    have served : (ofMachine m).after (singly 1) = ⟨m.step.machine, rest, false⟩ := by
      simp [singly, Session.after, serve, taken]
    refine ⟨1 + rest.length, ?_, ?_⟩
    · rw [singly_add, after_append, served, emptied]
      rfl
    · rw [singly_add, shown_append, served, given]
      simp [singly, shown_execute, taken, first]

/-- One step at a time, a session gets through any number of steps and shows all that they raise. -/
theorem singly_raised {m : Machine} (n : Nat) :
    ∃ calls, (ofMachine m).after (singly calls) = ofMachine (m.walk n) ∧
      (ofMachine m).shown (singly calls) = m.raised n := by
  induction n with
  | zero => exact ⟨0, rfl, rfl⟩
  | succ n ih =>
    obtain ⟨calls, after, shown⟩ := ih
    cases running : (m.walk n).running with
    | false =>
      refine ⟨calls, ?_, ?_⟩
      · rw [Machine.walk_ended running 1, after]
      · rw [Machine.raised_ended running 1, shown]
    | true =>
      obtain ⟨more, stepped, given⟩ := singly_step running
      refine ⟨calls + more, ?_, ?_⟩
      · rw [singly_add, after_append, after, stepped, Machine.walk_running running]
      · rw [singly_add, shown_append, after, shown, given]
        simp [Machine.raised, Machine.emits, running]

/-- A run that has ended shows its end as often as it is asked. -/
theorem singly_ended {m : Machine} {n : Nat} (ended : (m.walk n).running = false) (ends : Nat) :
    ∃ calls, (ofMachine m).shown (singly calls) = m.raised n ++ List.replicate ends .stopped := by
  obtain ⟨calls, after, shown⟩ := singly_raised (m := m) n
  refine ⟨calls + ends, ?_⟩
  rw [singly_add, shown_append, after, shown]
  congr 1
  induction ends with
  | zero => rfl
  | succ ends ih =>
    rw [Nat.add_comm, singly_add, shown_append]
    have stays : (ofMachine (m.walk n)).execute 1 = ⟨.stopped, ofMachine (m.walk n), #[]⟩ := by
      simp [ofMachine, execute, ended]
    have served : (ofMachine (m.walk n)).after (singly 1) = ofMachine (m.walk n) := by
      simp [singly, Session.after, serve, stays]
    rw [served, ih]
    simp [singly, shown_execute, stays, Event.isRunning, Nat.add_comm 1, List.replicate_succ]

/-- How the answers to requests agree with steps taken one at a time: the events delivered are a prefix
of what single steps show, nothing but one interrupt and the end comes after them, and with the events
that wait they are exactly what the steps taken so far have raised. -/
structure Agrees (s : Session) (requests : List Request) (delivered : List Event) : Prop where
  begins : ∃ calls, delivered <+: s.shown (singly calls)
  follows : s.shown requests = delivered ∨
    ∃ line ends, s.shown requests =
      delivered ++ .error (Fault.interrupted.report line) :: List.replicate ends .stopped
  complete : ∃ ends,
    delivered ++ (s.after requests).pending =
        s.machine.raised (s.taken requests) ++ List.replicate ends .stopped ∧
      (0 < ends → (s.machine.walk (s.taken requests)).running = false)
  reached : (s.after requests).machine = s.machine.walk (s.taken requests) ∨
    (s.after requests).machine = (s.machine.walk (s.taken requests)).halt

theorem exists_agrees (m : Machine) (requests : List Request) :
    ∃ delivered, (ofMachine m).Agrees requests delivered := by
  have reached := (ofMachine m).after_machine requests
  cases after_progress (m := m) requests with
  | whole ends machine events closed =>
    have ended : 0 < ends → (m.walk ((ofMachine m).taken requests)).running = false := by
      intro positive
      rw [← machine]
      exact (closed positive).1
    refine ⟨_, ?_, .inl rfl, ⟨ends, events, ended⟩, reached⟩
    have begins : (ofMachine m).shown requests <+:
        m.raised ((ofMachine m).taken requests) ++ List.replicate ends .stopped :=
      ⟨_, events⟩
    rcases Nat.eq_zero_or_pos ends with rfl | positive
    · obtain ⟨calls, _, shown⟩ := singly_raised (m := m) ((ofMachine m).taken requests)
      exact ⟨calls, by simpa [shown] using begins⟩
    · obtain ⟨calls, shown⟩ := singly_ended (ended positive) ends
      exact ⟨calls, by simpa [shown] using begins⟩
  | broken ends machine clear events =>
    obtain ⟨calls, _, shown⟩ := singly_raised (m := m) ((ofMachine m).taken requests)
    refine ⟨m.raised ((ofMachine m).taken requests), ⟨calls, shown ▸ List.prefix_rfl⟩,
      .inr ⟨_, ends, events⟩, ⟨0, ?_, fun positive => absurd positive (Nat.lt_irrefl 0)⟩, reached⟩
    rw [clear]
    rfl

theorem pending_speaks (m : Machine) (requests : List Request) :
    ∀ event ∈ ((ofMachine m).after requests).pending, event.isRunning = false := by
  cases after_progress (m := m) requests with
  | whole ends machine events closed => exact Progress.waiting_speaks events
  | broken ends machine clear events => simp [clear]

/-- A budget that is used up was spent on steps that raised nothing. -/
theorem running_spends {s : Session} (speaks : ∀ event ∈ s.pending, event.isRunning = false)
    {budget : Nat} (silent : (s.execute budget).event = .running) :
    s.effort (.execute budget) = budget ∧
      (s.execute budget).session.machine = s.machine.walk budget ∧
      ∀ i, i < budget → (s.machine.walk i).running = true ∧ (s.machine.walk i).step.events = [] := by
  have reply := s.execute_reply budget
  rw [silent] at reply
  generalize s.effort (.execute budget) = steps, (s.execute budget).session = next at reply
  cases reply with
  | waiting event rest queue =>
    have := speaks .running (by simp [queue])
    cases this
  | silent clear running unasked quiet =>
    refine ⟨rfl, rfl, fun i lt => ?_⟩
    have first : s.machine.raised i = [] := by
      rw [show budget = i + (budget - i) by omega, Machine.raised_add] at quiet
      exact (List.append_eq_nil_iff.mp quiet).1
    exact ⟨(Machine.silent_walk running first).1, (Machine.silent_walk running quiet).2 i lt⟩
  | spoken k event rest clear running unasked quiet awake loud =>
    have := (s.machine.walk k).step_move.speaks .running (by simp [loud])
    cases this

/-- Batching and interruption never change what a program does. -/
theorem shown_agrees {source : String} {entry : Option String} {s : Session}
    (loaded : (load source entry).2 = .ok s) (requests : List Request) :
    (∃ delivered, s.Agrees requests delivered) ∧
      (∀ n ends, (s.machine.walk n).running = false →
        ∃ calls, s.shown (singly calls) = s.machine.raised n ++ List.replicate ends .stopped) ∧
      ∀ budget, ((s.after requests).execute budget).event = .running →
        (s.after requests).effort (.execute budget) = budget ∧
          ((s.after requests).execute budget).session.machine =
            (s.after requests).machine.walk budget ∧
          ∀ i, i < budget → ((s.after requests).machine.walk i).running = true ∧
            ((s.after requests).machine.walk i).step.events = [] := by
  obtain ⟨_, fresh, _, _⟩ := load_ok loaded
  rw [fresh]
  refine ⟨exists_agrees s.machine requests, fun n ends ended => singly_ended ended ends, ?_⟩
  intro budget silent
  exact running_spends (pending_speaks s.machine requests) silent

/-- A line that prints, then an endless loop that is interrupted in the middle of a budget. -/
theorem shown_agrees_interrupted :
    ∃ s, (load "println \"hi\"\nlb a\njmp a" none).2 = .ok s ∧
      (s.shown [.execute 0, .execute 5, .execute 7, .interrupt, .execute 3, .execute 1]).length = 3 ∧
      ∃ delivered, s.Agrees
        [.execute 0, .execute 5, .execute 7, .interrupt, .execute 3, .execute 1] delivered := by
  obtain ⟨s, loaded, computed⟩ := loaded_with "println \"hi\"\nlb a\njmp a" none
    (fun s => (s.shown
      [.execute 0, .execute 5, .execute 7, .interrupt, .execute 3, .execute 1]).length) 3
    (by decide +kernel)
  exact ⟨s, loaded, computed, (shown_agrees loaded _).1⟩

end Session

end RegisterMachine
