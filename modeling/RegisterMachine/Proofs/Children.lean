import Mathlib.Data.List.Perm.Basic
import Mathlib.Logic.Relation
import RegisterMachine.Shell.Turn

/-!
The accounts of a crew. Children are started, finish and are read in any order of events: a child may
finish between any two steps of its owner, also in the middle of a wait. A roster is a crew with the
children behind it, and it moves by steps, each of which looks at the queue at most once
(`Roster.Step`). In every roster that is reached, the crew counts the children that run or are queued,
and a call has read successes only, and then the failure that it ended with (`Roster.Accounted`). A
turn of the shell is a run of such steps (`Roster.serves_turn`).
-/

namespace RegisterMachine

namespace Crew

theorem reapFrom_clear {outstanding : Nat} {queue : List Nat} {left : Crew}
    (reaped : reapFrom outstanding queue = (none, left)) : left.queue = [] := by
  fun_induction reapFrom outstanding queue with
  | case1 =>
    cases reaped
    rfl
  | case2 outstanding rest ih => exact ih reaped
  | case3 => cases reaped

/-- What is queued is all read, unless there is a failure. -/
theorem reap_clear {c left : Crew} (reaped : c.reap = (none, left)) : left.queue = [] :=
  reapFrom_clear reaped

end Crew

/-- The calls that read the queue. -/
inductive Call where
  | reap
  | sleep
  | drain
  deriving DecidableEq, Repr

/-- One turn of a call, made at once. -/
def Call.turn (call : Call) (c : Crew) (interrupted expired : Bool) (late : List Nat) :
    Option Wait × Crew :=
  match call with
  | reap => (some (c.reap.1.elim .done .failed), c.reap.2)
  | sleep => c.waitTurn interrupted expired late
  | drain => c.drainTurn interrupted late

/-- Where the owner of a crew stands. -/
inductive Stage where
  | idle
  /-- The call begins a turn. -/
  | heading (call : Call)
  /-- The call reads what is queued. -/
  | reading (call : Call)
  /-- The call has found the queue empty, and goes on to wait. -/
  | waiting (call : Call)
  | ended (call : Call) (result : Wait)
  deriving DecidableEq, Repr

namespace Stage

/-- No call is being made. -/
def isFree : Stage → Bool
  | idle | ended .. => true
  | _ => false

/-- What a call that stands there has read: successes, and at its end the failure that it returns. -/
def Took : Stage → List Nat → Prop
  | ended _ (.failed status), taken => status ≠ 0 ∧ ∃ n, taken = List.replicate n 0 ++ [status]
  | _, taken => ∀ status ∈ taken, status = 0

theorem took_active {stage : Stage} (active : stage.isFree = false) (taken : List Nat) :
    stage.Took taken ↔ ∀ status ∈ taken, status = 0 := by
  cases stage with
  | idle | ended => cases active
  | heading | reading | waiting => rfl

end Stage

/-- A crew with the children behind it. -/
structure Roster where
  crew : Crew
  /-- How many children have been started; they are numbered in that order. -/
  started : Nat
  /-- The children that run. -/
  running : List Nat
  /-- The children that have finished, with their statuses, the earliest first. -/
  finished : List (Nat × Nat)
  /-- The statuses that have been read, the earliest first. -/
  consumed : List Nat
  /-- Those among them that the call at hand, or else the last one, has read. -/
  taken : List Nat
  stage : Stage
  deriving DecidableEq, Repr

namespace Roster

def empty : Roster := ⟨.empty, 0, [], [], [], [], .idle⟩

def start (y : Roster) : Roster :=
  { y with
    crew := y.crew.start
    started := y.started + 1
    running := y.running ++ [y.started]
    taken := []
    stage := .idle }

def finish (y : Roster) (child status : Nat) : Roster :=
  { y with
    crew := y.crew.arrive [status]
    running := y.running.erase child
    finished := y.finished ++ [(child, status)] }

/-- The call reads one status, if there is one, and goes on unless it is a failure. -/
def read (y : Roster) (call : Call) (next : Stage) : Roster :=
  { y with
    crew := y.crew.poll.2
    consumed := y.consumed ++ y.crew.queue.take 1
    taken := y.taken ++ y.crew.queue.take 1
    stage := y.crew.poll.1.elim next (.ended call) }

theorem read_clear {y : Roster} (clear : y.crew.queue = []) (call : Call) (next : Stage) :
    y.read call next = { y with stage := next } := by
  simp [read, Crew.poll, clear]

theorem read_queued {y : Roster} {status : Nat} {rest : List Nat}
    (queued : y.crew.queue = status :: rest) (call : Call) (next : Stage) :
    y.read call next =
      { y with
        crew := ⟨y.crew.outstanding - 1, rest⟩
        consumed := y.consumed ++ [status]
        taken := y.taken ++ [status]
        stage := if status = 0 then next else .ended call (.failed status) } := by
  simp only [read, Crew.poll, queued]
  split <;> rfl

/-- One step: of a child, which may finish at any time, or of the owner. -/
inductive Step (y : Roster) : Roster → Prop
  | start (free : y.stage.isFree = true) : Step y y.start
  /-- A child cannot be started. -/
  | refuse (free : y.stage.isFree = true) : Step y y
  | finish (child status : Nat) (runs : child ∈ y.running) : Step y (y.finish child status)
  | begin (call : Call) (free : y.stage.isFree = true) :
      Step y { y with taken := [], stage := .heading call }
  | done (heads : y.stage = .heading .drain) (clear : y.crew.outstanding = 0) :
      Step y { y with stage := .ended .drain .done }
  | enter (call : Call) (heads : y.stage = .heading call)
      (left : call = .drain → y.crew.outstanding ≠ 0) : Step y { y with stage := .reading call }
  | read (call : Call) (reads : y.stage = .reading call) (queued : y.crew.queue ≠ []) :
      Step y (y.read call (.reading call))
  /-- The queue is empty: a call that only reads it ends, and the others wait. -/
  | pass (call : Call) (reads : y.stage = .reading call) (clear : y.crew.queue = []) :
      Step y { y with stage := if call = .reap then .ended .reap .done else .waiting call }
  | interrupt (call : Call) (waits : y.stage = .waiting call) :
      Step y { y with stage := .ended call .interrupted }
  /-- The time of a sleep is over. -/
  | expire (waits : y.stage = .waiting .sleep) : Step y { y with stage := .ended .sleep .done }
  | poll (call : Call) (waits : y.stage = .waiting call) : Step y (y.read call (.heading call))

/-- There are steps that lead from one roster to the other. -/
abbrev Leads (y z : Roster) : Prop := Relation.ReflTransGen Step y z

/-- There are such steps while one call is being made. -/
abbrev Proceeds (y z : Roster) : Prop :=
  Relation.ReflTransGen (fun y z => y.Step z ∧ y.stage.isFree = false) y z

theorem Proceeds.leads {y z : Roster} (proceeds : y.Proceeds z) : y.Leads z :=
  Relation.ReflTransGen.mono (fun _ _ => And.left) _ _ proceeds

/-- What the crew counts and what has been read agree with what the children did. -/
structure Accounted (y : Roster) : Prop where
  /-- The children that run and those that are queued are outstanding. -/
  outstanding : y.crew.outstanding = y.running.length + y.crew.queue.length
  /-- Each child that was started either runs or has finished, once. -/
  once : (y.finished.map Prod.fst ++ y.running).Perm (List.range y.started)
  /-- The statuses are read in the order in which the children finish. -/
  order : y.finished.map Prod.snd = y.consumed ++ y.crew.queue
  own : y.taken <:+ y.consumed
  took : y.stage.Took y.taken
  drained : y.stage = .ended .drain .done → y.crew.outstanding = 0

theorem empty_accounted : empty.Accounted where
  outstanding := rfl
  once := .refl []
  order := rfl
  own := List.suffix_rfl
  took := by simp [empty, Stage.Took]
  drained := by simp [empty]

namespace Accounted

variable {y : Roster}

/-- What is queued is counted, so that one that is read is taken off the count. -/
theorem poll_outstanding (accounted : y.Accounted) (queued : y.crew.queue ≠ []) :
    y.crew.poll.2.outstanding + 1 = y.crew.outstanding := by
  have counted := accounted.outstanding
  rcases crew : y.crew with ⟨outstanding, queue⟩
  rw [crew] at counted queued
  cases queue with
  | nil => exact absurd rfl queued
  | cons status rest =>
    simp only [List.length_cons] at counted
    simp only [Crew.poll]
    omega

/-- When no child is outstanding, none runs and none is queued. -/
theorem none_left (accounted : y.Accounted) (clear : y.crew.outstanding = 0) :
    y.running = [] ∧ y.crew.queue = [] := by
  have counted := accounted.outstanding
  exact ⟨List.length_eq_zero_iff.mp (by omega), List.length_eq_zero_iff.mp (by omega)⟩

/-- The owner goes on to a stage that fits what it has read. -/
theorem move (accounted : y.Accounted) {stage : Stage} (took : stage.Took y.taken)
    (drained : stage = .ended .drain .done → y.crew.outstanding = 0) :
    Accounted { y with stage := stage } :=
  { accounted with took, drained }

/-- The owner goes on, and nothing has been read by the call at hand. -/
theorem reset (accounted : y.Accounted) {stage : Stage}
    (other : ∀ call result, stage ≠ .ended call result) :
    Accounted { y with taken := [], stage := stage } where
  outstanding := accounted.outstanding
  once := accounted.once
  order := accounted.order
  own := List.nil_suffix
  took := by
    cases stage with
    | ended call result => exact absurd rfl (other call result)
    | idle | heading | reading | waiting => simp [Stage.Took]
  drained same := absurd same (other .drain .done)

theorem start (accounted : y.Accounted) : y.start.Accounted where
  outstanding := by
    have counted := accounted.outstanding
    simp only [Roster.start, Crew.start, List.length_append, List.length_singleton]
    omega
  once := by
    simp only [Roster.start, List.range_succ, ← List.append_assoc]
    exact accounted.once.append_right _
  order := accounted.order
  own := List.nil_suffix
  took := by simp [Roster.start, Stage.Took]
  drained := by simp [Roster.start]

theorem finish (accounted : y.Accounted) {child : Nat} (runs : child ∈ y.running) (status : Nat) :
    (y.finish child status).Accounted where
  outstanding := by
    have counted := accounted.outstanding
    have positive := List.length_pos_of_mem runs
    simp only [Roster.finish, Crew.arrive, List.length_append, List.length_singleton,
      List.length_erase_of_mem runs]
    omega
  once := by
    have same : (y.running).Perm (child :: y.running.erase child) := List.perm_cons_erase runs
    simp only [Roster.finish, List.map_append, List.map_cons, List.map_nil, List.append_assoc,
      List.singleton_append]
    exact (same.symm.append_left _).trans accounted.once
  order := by
    simp only [Roster.finish, Crew.arrive, List.map_append, List.map_cons, List.map_nil,
      accounted.order, List.append_assoc]
  own := accounted.own
  took := accounted.took
  drained := accounted.drained

/-- A call that is being made reads one status. -/
theorem read (accounted : y.Accounted) (active : y.stage.isFree = false) (call : Call) {next : Stage}
    (goes : next.isFree = false) : (y.read call next).Accounted := by
  have zeros := (Stage.took_active active y.taken).mp accounted.took
  have unlike : next ≠ .ended .drain .done := by
    rintro rfl
    cases goes
  cases queue : y.crew.queue with
  | nil =>
    rw [read_clear queue]
    exact accounted.move ((Stage.took_active goes y.taken).mpr zeros) fun same => absurd same unlike
  | cons status rest =>
    have counted := accounted.outstanding
    rw [queue, List.length_cons] at counted
    rw [read_queued queue]
    refine ⟨?_, accounted.once, ?_, ?_, ?_, ?_⟩
    · simp only
      omega
    · simpa [queue] using accounted.order
    · obtain ⟨before, whole⟩ := accounted.own
      exact ⟨before, by simp [← whole]⟩
    · by_cases success : status = 0
      · simp only [if_pos success]
        refine (Stage.took_active goes _).mpr fun other member => ?_
        rcases List.mem_append.mp member with early | last
        · exact zeros other early
        · rw [List.mem_singleton.mp last, success]
      · simp only [if_neg success]
        exact ⟨success, y.taken.length, by rw [← List.eq_replicate_of_mem zeros]⟩
    · intro same
      by_cases success : status = 0
      · exact absurd (by simpa [success] using same) unlike
      · simp [success] at same

/-- Every step keeps the accounts. -/
theorem step {z : Roster} (accounted : y.Accounted) (step : y.Step z) : z.Accounted := by
  -- A call that is being made has read successes only, and may go on to any stage that says so.
  have zeros (active : y.stage.isFree = false) := (Stage.took_active active y.taken).mp accounted.took
  cases step with
  | start free => exact accounted.start
  | refuse free => exact accounted
  | finish child status runs => exact accounted.finish runs status
  | begin call free => exact accounted.reset (by simp)
  | done heads clear => exact accounted.move (zeros (by rw [heads]; rfl)) fun _ => clear
  | enter call heads left => exact accounted.move (zeros (by rw [heads]; rfl)) (by simp)
  | read call reads queued => exact accounted.read (by rw [reads]; rfl) call rfl
  | pass call reads clear =>
    refine accounted.move ?_ ?_
    · split <;> exact zeros (by rw [reads]; rfl)
    · split <;> simp
  | interrupt call waits => exact accounted.move (zeros (by rw [waits]; rfl)) (by simp)
  | expire waits => exact accounted.move (zeros (by rw [waits]; rfl)) (by simp)
  | poll call waits => exact accounted.read (by rw [waits]; rfl) call rfl

theorem leads {z : Roster} (accounted : y.Accounted) (leads : y.Leads z) : z.Accounted := by
  induction leads with
  | refl => exact accounted
  | tail _ step ih => exact ih.step step

end Accounted

/-- As many children finish as there are statuses, in the order of the statuses. -/
theorem leads_arrive {y : Roster} (statuses : List Nat)
    (enough : statuses.length ≤ y.running.length) :
    ∃ z, y.Leads z ∧ (y.stage.isFree = false → y.Proceeds z) ∧
      z.crew = y.crew.arrive statuses ∧ z.stage = y.stage ∧
      z.running.length + statuses.length = y.running.length := by
  induction statuses generalizing y with
  | nil => exact ⟨y, .refl, fun _ => .refl, by simp [Crew.arrive], rfl, rfl⟩
  | cons status rest ih =>
    cases running : y.running with
    | nil => simp [running] at enough
    | cons child others =>
      have step := Step.finish (y := y) child status (by simp [running])
      have left : (y.finish child status).running = others := by simp [finish, running]
      obtain ⟨z, leads, proceeds, crew, stage, length⟩ := @ih (y.finish child status) (by
        rw [left]
        simpa [running] using enough)
      refine ⟨z, .head step leads, ?_, ?_, stage, ?_⟩
      · exact fun active => .head ⟨step, active⟩ (proceeds active)
      · simpa [finish, Crew.arrive] using crew
      · rw [left] at length
        simp only [List.length_cons]
        omega

/-- The call reads one status that is queued. -/
def Reads (call : Call) (y z : Roster) : Prop :=
  y.stage = .reading call ∧ y.crew.queue ≠ [] ∧ z = y.read call (.reading call)

/-- The call reads the queue, one status at a time. -/
theorem reads_all {y : Roster} {call : Call} (reads : y.stage = .reading call) :
    ∃ z, Relation.ReflTransGen (Reads call) y z ∧ z.crew = y.crew.reap.2 ∧ z.running = y.running ∧
      z.stage = y.crew.reap.1.elim (.reading call) fun status => .ended call (.failed status) := by
  rcases crew : y.crew with ⟨outstanding, queue⟩
  induction queue generalizing y outstanding with
  | nil => exact ⟨y, .refl, crew, rfl, reads⟩
  | cons status rest ih =>
    have queued : y.crew.queue = status :: rest := by rw [crew]
    obtain ⟨next, step, crew', running, stage⟩ : ∃ next, y.Reads call next ∧
        next.crew = ⟨outstanding - 1, rest⟩ ∧ next.running = y.running ∧
        next.stage = if status = 0 then .reading call else .ended call (.failed status) :=
      ⟨_, ⟨reads, by simp [queued], rfl⟩, by simp [read_queued queued, crew]⟩
    by_cases success : status = 0
    · obtain ⟨z, later, same⟩ := ih (by rw [stage, if_pos success]) (outstanding - 1) crew'
      refine ⟨z, .head step later, ?_⟩
      simpa [Crew.reap, Crew.reapFrom, success, running] using same
    · refine ⟨next, .single step, ?_⟩
      simp [Crew.reap, Crew.reapFrom, success, crew', running, stage]

theorem proceeds_reap {y : Roster} {call : Call} (reads : y.stage = .reading call) :
    ∃ z, y.Proceeds z ∧ z.crew = y.crew.reap.2 ∧ z.running = y.running ∧
      z.stage = y.crew.reap.1.elim (.reading call) fun status => .ended call (.failed status) := by
  obtain ⟨z, all, ends⟩ := reads_all reads
  refine ⟨z, Relation.ReflTransGen.mono ?_ _ _ all, ends⟩
  rintro x _ ⟨reading, queued, rfl⟩
  exact ⟨.read call reading queued, by rw [reading]; rfl⟩

/-- A turn of a wait, from where it reads the queue. -/
theorem proceeds_wait {y : Roster} {call : Call} {late : List Nat} (interrupted expired : Bool)
    (reads : y.stage = .reading call) (waits : call ≠ .reap) (timed : expired = true → call = .sleep)
    (enough : late.length ≤ y.running.length) :
    ∃ z, y.Proceeds z ∧ z.crew = (y.crew.waitTurn interrupted expired late).2 ∧
      z.stage = (y.crew.waitTurn interrupted expired late).1.elim (.heading call) (.ended call) := by
  obtain ⟨x, proceeds, crew, running, stage⟩ := proceeds_reap reads
  rcases reaped : y.crew.reap with ⟨status?, left⟩
  rw [reaped] at crew stage
  simp only [Crew.waitTurn, reaped]
  cases status? with
  | some status => exact ⟨x, proceeds, crew, stage⟩
  | none =>
    have clear : left.queue = [] := Crew.reap_clear reaped
    have step := Step.pass call stage (by rw [crew, clear])
    rw [if_neg waits] at step
    replace proceeds := proceeds.tail ⟨step, by rw [stage]; rfl⟩
    cases interrupted with
    | true => exact ⟨_, proceeds.tail ⟨.interrupt call rfl, rfl⟩, crew, rfl⟩
    | false =>
      cases expired with
      | true =>
        obtain rfl := timed rfl
        exact ⟨_, proceeds.tail ⟨.expire rfl, rfl⟩, crew, rfl⟩
      | false =>
        obtain ⟨z, _, arrives, crew', stage', _⟩ := leads_arrive late
          (y := { x with stage := .waiting call }) (by rw [running]; exact enough)
        refine ⟨_, (proceeds.trans (arrives rfl)).tail ⟨.poll call stage', by rw [stage']; rfl⟩, ?_⟩
        simp [read, crew', crew]

/-- A turn of a call is a run of its steps, if no more children finish in it than run. -/
theorem proceeds_turn {y : Roster} {call : Call} (interrupted expired : Bool) (late : List Nat)
    (heads : y.stage = .heading call) (enough : late.length ≤ y.running.length) :
    ∃ z, y.Proceeds z ∧ z.crew = (call.turn y.crew interrupted expired late).2 ∧
      z.stage = (call.turn y.crew interrupted expired late).1.elim (.heading call)
        (.ended call) := by
  have active : y.stage.isFree = false := by rw [heads]; rfl
  cases call with
  | reap =>
    have step := Step.enter .reap heads (by simp)
    obtain ⟨z, proceeds, crew, _, stage⟩ :=
      proceeds_reap (y := { y with stage := .reading .reap }) rfl
    replace proceeds := proceeds.head ⟨step, active⟩
    rcases reaped : y.crew.reap with ⟨status?, left⟩
    rw [reaped] at crew stage
    simp only [Call.turn, reaped]
    cases status? with
    | some status => exact ⟨z, proceeds, crew, stage⟩
    | none =>
      have clear : z.crew.queue = [] := by rw [crew, Crew.reap_clear reaped]
      exact ⟨_, proceeds.tail ⟨.pass .reap stage clear, by rw [stage]; rfl⟩, crew, rfl⟩
  | sleep =>
    have step := Step.enter .sleep heads (by simp)
    obtain ⟨z, proceeds, ends⟩ := proceeds_wait (y := { y with stage := .reading .sleep })
      interrupted expired rfl (by simp) (fun _ => rfl) enough
    exact ⟨z, .head ⟨step, active⟩ proceeds, ends⟩
  | drain =>
    simp only [Call.turn, Crew.drainTurn]
    by_cases clear : y.crew.outstanding = 0
    · rw [if_pos clear]
      exact ⟨_, .single ⟨.done heads clear, active⟩, rfl, rfl⟩
    · rw [if_neg clear]
      have step := Step.enter .drain heads fun _ => clear
      obtain ⟨z, proceeds, ends⟩ := proceeds_wait (y := { y with stage := .reading .drain })
        interrupted false rfl (by simp) (by simp) enough
      exact ⟨z, .head ⟨step, active⟩ proceeds, ends⟩

/-- The roster stands behind a shell: it has its crew and makes the call that the shell is in. -/
def Serves (y : Roster) (s : Shell) : Prop :=
  y.crew = s.crew ∧
    match s.phase with
    | .looping | .ended _ => y.stage.isFree = true
    | .sleeping _ => y.stage = .heading .sleep
    | .draining => y.stage = .heading .drain

theorem serves_start (session : Session) (colors : Colors) : empty.Serves (.start session colors) :=
  ⟨rfl, rfl⟩

/-- The shell reacts to an event. -/
theorem serves_handle {y : Roster} {s : Shell} (crew : y.crew = s.crew)
    (free : y.stage.isFree = true) (looping : s.phase = .looping) (m : Moment) (event : Event) :
    ∃ z, y.Leads z ∧ z.Serves (s.handle m event).1 := by
  have stays : ∃ z, y.Leads z ∧ z.Serves s := ⟨y, .refl, crew, by rw [looping]; exact free⟩
  have ends (status : Nat) : ∃ z, y.Leads z ∧ z.Serves (s.endWith status) :=
    ⟨y, .refl, crew, free⟩
  have drains : ∃ z, y.Leads z ∧ z.Serves { s with phase := .draining } :=
    ⟨_, .single (.begin .drain free), crew, rfl⟩
  cases event with
  | stopped => exact drains
  | running | print | inspect | warning => exact stays
  | error => exact ends 1
  | launch function line =>
    simp only [Shell.handle]
    cases m.refusal with
    | none =>
      refine ⟨_, .single (.start free), congrArg Crew.start crew, ?_⟩
      simp only [looping]
      rfl
    | some reason => exact ⟨y, .single (.refuse free), crew, free⟩
  | sleep => exact ⟨_, .single (.begin .sleep free), crew, rfl⟩
  | exit status =>
    cases status with
    | zero => exact drains
    | succ status => exact ends (status + 1)

/-- A turn of the main loop. -/
theorem serves_loop {y : Roster} {s : Shell} (crew : y.crew = s.crew)
    (free : y.stage.isFree = true) (looping : s.phase = .looping) (m : Moment) :
    ∃ z, y.Leads z ∧ z.Serves (s.loop m).1 := by
  have begun := Step.begin .reap free
  obtain ⟨x, reaps, crew', stage⟩ := proceeds_turn
    (y := { y with taken := [], stage := .heading .reap }) false false [] rfl (Nat.zero_le _)
  have reads : y.Leads x := reaps.leads.head begun
  simp only [crew, Call.turn] at crew' stage
  have free' := congrArg Stage.isFree stage
  rcases reaped : s.crew.reap with ⟨status?, left⟩
  rw [reaped] at crew'
  simp only [Shell.loop, reaped]
  cases status? with
  | some status => exact ⟨x, reads, crew', free'⟩
  | none =>
    obtain ⟨z, leads, serves⟩ := serves_handle (y := x)
      (s := { s with
        session := ((if s.pressed then s.session.interrupt else s.session).execute Shell.batch).session
        pressed := false
        crew := left }) crew' free' looping m
      ((if s.pressed then s.session.interrupt else s.session).execute Shell.batch).event
    exact ⟨z, reads.trans leads, serves⟩

/-- A turn of the shell is a run of steps, if no more children finish in it than run. -/
theorem serves_turn {y : Roster} {s : Shell} {m : Moment} (serves : y.Serves s)
    (enough : m.finished.length + m.late.length ≤ y.running.length) :
    ∃ z, y.Leads z ∧ z.Serves (s.turn m).1 := by
  obtain ⟨crew, stands⟩ := serves
  obtain ⟨x, arrives, _, crew', stage, left⟩ := leads_arrive m.finished (y := y) (by omega)
  rw [crew] at crew'
  rw [← stage] at stands
  -- A call that goes on makes its turn once the children have finished that did so before.
  have waits {call : Call} (heads : x.stage = .heading call) :
      ∃ z, y.Leads z ∧
        z.crew =
          (call.turn (s.crew.arrive m.finished) (s.pressed || m.pressed) m.expired m.late).2 ∧
        z.stage =
          (call.turn (s.crew.arrive m.finished) (s.pressed || m.pressed) m.expired m.late).1.elim
            (.heading call) (.ended call) := by
    obtain ⟨z, proceeds, ends⟩ :=
      proceeds_turn (s.pressed || m.pressed) m.expired m.late heads (by omega)
    rw [crew'] at ends
    exact ⟨z, arrives.trans proceeds.leads, ends⟩
  simp only [Shell.turn]
  cases phase : s.phase with
  | looping =>
    rw [phase] at stands
    obtain ⟨z, leads, serves⟩ := serves_loop (y := x)
      (s := { s with pressed := s.pressed || m.pressed, crew := s.crew.arrive m.finished })
      crew' stands phase m
    rw [phase] at serves
    exact ⟨z, arrives.trans leads, serves⟩
  | sleeping milliseconds =>
    rw [phase] at stands
    obtain ⟨z, leads, crew, stage⟩ := waits stands
    refine ⟨z, leads, ?_⟩
    simp only [Call.turn] at crew stage
    generalize (s.crew.arrive m.finished).waitTurn (s.pressed || m.pressed) m.expired m.late =
      outcome at crew stage ⊢
    rcases outcome with ⟨_ | _ | _ | _, left⟩
    · exact ⟨crew, stage⟩
    all_goals exact ⟨crew, congrArg Stage.isFree stage⟩
  | draining =>
    rw [phase] at stands
    obtain ⟨z, leads, crew, stage⟩ := waits stands
    refine ⟨z, leads, ?_⟩
    simp only [Call.turn] at crew stage
    generalize (s.crew.arrive m.finished).drainTurn (s.pressed || m.pressed) m.late =
      outcome at crew stage ⊢
    rcases outcome with ⟨_ | _ | _ | _, left⟩
    · exact ⟨crew, stage⟩
    all_goals exact ⟨crew, congrArg Stage.isFree stage⟩
  | ended =>
    rw [phase] at stands
    exact ⟨x, arrives, crew', stands⟩

/-- In every roster that is reached, the accounts are right: a status that is read is taken off the
count, and a wait for all children is done only when none runs and none is queued. A turn of each call
is a run of the call's steps, and a turn of a shell that the roster stands behind is a run of steps; a
child that cannot be started changes nothing. -/
theorem reached_accounted {y : Roster} (reached : empty.Leads y) :
    y.Accounted ∧
      (y.crew.queue ≠ [] → y.crew.poll.2.outstanding + 1 = y.crew.outstanding) ∧
      (y.stage = .ended .drain .done →
        y.crew.outstanding = 0 ∧ y.running = [] ∧ y.crew.queue = []) ∧
      (∀ call interrupted expired late, y.stage = .heading call →
        late.length ≤ y.running.length →
          ∃ z, y.Proceeds z ∧ z.crew = (call.turn y.crew interrupted expired late).2 ∧
            z.stage = (call.turn y.crew interrupted expired late).1.elim (.heading call)
              (.ended call)) ∧
      (∀ (s : Shell) m function line reason, m.refusal = some reason →
        (s.handle m (.launch function line)).1.crew = s.crew) ∧
      (∀ session colors, empty.Serves (.start session colors)) ∧
      ∀ s m, y.Serves s → m.finished.length + m.late.length ≤ y.running.length →
        ∃ z, y.Leads z ∧ z.Serves (s.turn m).1 := by
  have accounted := empty_accounted.leads reached
  refine ⟨accounted, accounted.poll_outstanding, ?_, ?_, ?_, serves_start, ?_⟩
  · intro ended
    have clear := accounted.drained ended
    exact ⟨clear, accounted.none_left clear⟩
  · intro call interrupted expired late heads enough
    exact proceeds_turn interrupted expired late heads enough
  · intro s m function line reason refused
    simp only [Shell.handle, refused]
    rfl
  · intro s m serves enough
    exact serves_turn serves enough

/-- Three children run while the owner waits for all of them. The second finishes and is read, then
the third fails and the first finishes too. The wait ends at the failure and leaves the last one
queued, and the next wait reads that one. -/
theorem reached_accounted_failing :
    ∃ y, empty.Leads y ∧ y.finished = [(1, 0), (2, 3), (0, 0)] ∧
      y.stage = .ended .drain (.failed 3) ∧ y.taken = [0, 3] ∧ y.crew = ⟨1, [0]⟩ ∧ y.Accounted ∧
      y.crew.poll.2.outstanding + 1 = y.crew.outstanding ∧
      (∃ s, y.Serves s ∧ ∃ z, y.Leads z ∧ z.Serves (s.turn ⟨true, [], [], false, none⟩).1) ∧
      ∃ z, y.Leads z ∧ z.crew = ⟨0, []⟩ ∧ z.stage = .ended .drain .done ∧ z.running = [] := by
  have started : empty.Leads ⟨⟨3, []⟩, 3, [0, 1, 2], [], [], [], .idle⟩ :=
    ((Relation.ReflTransGen.single (.start rfl)).tail (.start rfl)).tail (.start rfl)
  have failed : empty.Leads
      ⟨⟨1, [0]⟩, 3, [], [(1, 0), (2, 3), (0, 0)], [0, 3], [0, 3], .ended .drain (.failed 3)⟩ :=
    ((((((started.tail (.begin .drain rfl)).tail (.enter .drain rfl (by decide))).tail
      (.finish 1 0 (by decide))).tail (.read .drain rfl (by decide))).tail
      (.finish 2 3 (by decide))).tail (.finish 0 0 (by decide))).tail (.read .drain rfl (by decide))
  obtain ⟨accounted, decrement, _, _, _, _, turn⟩ := reached_accounted failed
  have next := Step.begin .drain (y := ⟨⟨1, [0]⟩, 3, [], [(1, 0), (2, 3), (0, 0)], [0, 3], [0, 3],
    .ended .drain (.failed 3)⟩) rfl
  obtain ⟨x, reads, crew, stage⟩ :=
    (reached_accounted (failed.tail next)).2.2.2.1 .drain false false [] rfl (by decide)
  obtain ⟨z, drains, crew', stage'⟩ :=
    (reached_accounted ((failed.tail next).trans reads.leads)).2.2.2.1 .drain false false [] stage
      (Nat.zero_le _)
  rw [crew] at crew' stage'
  have drained := (Relation.ReflTransGen.head next reads.leads).trans drains.leads
  exact ⟨_, failed, rfl, rfl, rfl, rfl, accounted, decrement (by decide),
    ⟨⟨.ofMachine (.start ⟨#[], [], []⟩), ⟨1, [0]⟩, false, ⟨false, false⟩, .looping⟩, ⟨rfl, rfl⟩,
      turn _ _ ⟨rfl, rfl⟩ (by decide)⟩,
    z, drained, crew', stage', ((reached_accounted (failed.trans drained)).2.2.1 stage').2.1⟩

end Roster

end RegisterMachine
