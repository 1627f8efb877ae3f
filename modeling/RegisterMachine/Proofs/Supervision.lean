import RegisterMachine.Proofs.Children
import RegisterMachine.Proofs.Placement

/-!
The main loop with its children. Children end and Ctrl-C is pressed between any two steps of the loop,
and each step of the loop looks at the queue or at Ctrl-C at most once (`Supervision.Step`). The loop
returns 0 only after all children that it has started have exited with 0, and a status that it returns
because of a child is that of the first one that did not (`clean_exit`). A turn of the shell is a run of
such steps (`shows_turn`).
-/

namespace RegisterMachine

/-- How a child ends. -/
inductive Ending where
  | exited (code : Nat)
  | killed (signal : Nat)
  /-- It could not be waited for. -/
  | lost
  deriving DecidableEq, Repr

/-- What is queued for a child that has ended: its own status, or 1 if it has none. -/
def Ending.status : Ending → Nat
  | exited code => code
  | killed _ | lost => 1

theorem Ending.status_eq_zero {ending : Ending} : ending.status = 0 ↔ ending = .exited 0 := by
  cases ending <;> simp [status]

namespace Stage

/-- The call that is being made, or the last one. -/
def call? : Stage → Option Call
  | idle => none
  | heading call | reading call | waiting call | ended call _ => some call

/-- The failure that the last call returned. -/
def failure? : Stage → Option Nat
  | ended _ (.failed status) => some status
  | _ => none

theorem took_calm {stage : Stage} (calm : stage.failure? = none) (taken : List Nat) :
    stage.Took taken ↔ ∀ status ∈ taken, status = 0 := by
  rcases stage with _ | _ | _ | _ | ⟨call, _ | _ | _⟩
  case ended.failed => cases calm
  all_goals rfl

/-- What was read before a failure that is returned, and the failure. -/
theorem took_failure {stage : Stage} {status : Nat} {taken : List Nat}
    (failed : stage.failure? = some status) (took : stage.Took taken) :
    status ≠ 0 ∧ ∃ n, taken = List.replicate n 0 ++ [status] := by
  rcases stage with _ | _ | _ | _ | ⟨call, _ | _ | _⟩
  case ended.failed =>
    cases failed
    exact took
  all_goals cases failed

end Stage

namespace Roster

/-- One more status is read, after successes only. -/
theorem read_whole {y : Roster} (zeros : ∀ status ∈ y.consumed, status = 0) (call : Call)
    {next : Stage} (goes : next.isFree = false) :
    (y.read call next).stage.Took (y.read call next).consumed := by
  cases queue : y.crew.queue with
  | nil =>
    rw [read_clear queue]
    exact (Stage.took_active goes _).mpr zeros
  | cons status rest =>
    rw [read_queued queue]
    by_cases success : status = 0
    · simp only [if_pos success]
      refine (Stage.took_active goes _).mpr fun other member => ?_
      rcases List.mem_append.mp member with early | last
      · exact zeros other early
      · rw [List.mem_singleton.mp last, success]
    · simp only [if_neg success]
      exact ⟨success, y.consumed.length, by rw [← List.eq_replicate_of_mem zeros]⟩

/-- After a status is read the call goes on, or ends with a failure. -/
theorem read_stage (y : Roster) (call : Call) (next : Stage) :
    (y.read call next).stage = next ∨
      ∃ status, (y.read call next).stage = .ended call (.failed status) := by
  cases queue : y.crew.queue with
  | nil => exact .inl (by rw [read_clear queue])
  | cons status rest =>
    rw [read_queued queue]
    by_cases success : status = 0
    · exact .inl (if_pos success)
    · exact .inr ⟨status, if_neg success⟩

theorem read_call {y : Roster} {call : Call} {next : Stage} (same : next.call? = some call) :
    (y.read call next).stage.call? = some call := by
  rcases y.read_stage call next with goes | ⟨status, failed⟩
  · rw [goes, same]
  · rw [failed]
    rfl

/-- A step of a call, other than a child's, stays in the call and reads successes up to a failure. -/
theorem Step.in_call {y z : Roster} (step : y.Step z) (active : y.stage.isFree = false)
    (own : z.finished = y.finished) (whole : y.stage.Took y.consumed) :
    z.stage.call? = y.stage.call? ∧ z.stage.Took z.consumed := by
  have zeros := (Stage.took_active active _).mp whole
  cases step with
  | start free | refuse free | begin call free =>
    rw [free] at active
    cases active
  | finish child status runs => simp [Roster.finish] at own
  | done heads clear => exact ⟨by rw [heads]; rfl, zeros⟩
  | enter call heads left => exact ⟨by rw [heads]; rfl, zeros⟩
  | read call reads queued => exact ⟨by rw [reads]; exact read_call rfl, read_whole zeros call rfl⟩
  | pass call reads clear =>
    rw [reads]
    cases call <;> exact ⟨rfl, zeros⟩
  | interrupt call waits => exact ⟨by rw [waits]; rfl, zeros⟩
  | expire waits => exact ⟨by rw [waits]; rfl, zeros⟩
  | poll call waits => exact ⟨by rw [waits]; exact read_call rfl, read_whole zeros call rfl⟩

end Roster

/-- Why the main loop has returned. -/
inductive Cause where
  /-- The run was over, and so were all children. -/
  | drained
  | exit
  | error
  /-- A child could not be started. -/
  | refused
  /-- A child failed. -/
  | child
  /-- Ctrl-C was pressed while children were waited for. -/
  | interrupted
  deriving DecidableEq, Repr

/-- Where the main loop stands. -/
inductive Place where
  /-- Before it looks at Ctrl-C. -/
  | head
  | calling (call : Call)
  /-- Before it has the machine run. -/
  | executing
  | ended (status : Nat) (cause : Cause)
  deriving DecidableEq, Repr

/-- The main loop with the children behind it. -/
structure Supervision where
  session : Session
  /-- Ctrl-C has been pressed, and the loop has not taken notice of it at its head. -/
  pressed : Bool
  roster : Roster
  place : Place
  /-- The last event of the machine. -/
  answered : Option Event
  /-- The children that have ended, in the order in which they did. -/
  endings : List (Nat × Ending)
  /-- For each Ctrl-C that has gone on to the machine, whether the machine was still running. -/
  heard : List Bool

namespace Supervision

def start (session : Session) : Supervision := ⟨session, false, .empty, .head, none, [], []⟩

def finish (v : Supervision) (child : Nat) (ending : Ending) : Supervision :=
  { v with
    roster := v.roster.finish child ending.status
    endings := v.endings ++ [(child, ending)] }

def begin (v : Supervision) (call : Call) : Supervision :=
  { v with roster := { v.roster with taken := [], stage := .heading call }, place := .calling call }

def endWith (v : Supervision) (status : Nat) (cause : Cause) : Supervision :=
  { v with place := .ended status cause }

/-- Hands Ctrl-C on to the machine and then reads the queue. -/
def look (v : Supervision) : Supervision :=
  { v with
    session := if v.pressed then v.session.interrupt else v.session
    pressed := false
    heard := v.heard ++ if v.pressed then [v.session.machine.running] else [] }.begin .reap

/-- Goes on after a call. -/
def resume (v : Supervision) : Call → Wait → Supervision
  | _, .failed status => v.endWith status .child
  | .reap, _ => { v with place := .executing }
  | .sleep, _ => { v with place := .head }
  | .drain, .done => v.endWith 0 .drained
  | .drain, .interrupted => v.endWith 1 .interrupted

/-- Reacts to an event of the machine. -/
def react (v : Supervision) (refused : Bool) : Event → Supervision
  | .stopped => v.begin .drain
  | .running | .print _ | .inspect _ | .warning _ => { v with place := .head }
  | .error _ => v.endWith 1 .error
  | .launch .. =>
    if refused then v.endWith 1 .refused else { v with roster := v.roster.start, place := .head }
  | .sleep _ => v.begin .sleep
  | .exit 0 => v.begin .drain
  | .exit status => v.endWith status .exit

/-- Has the machine run up to its next event, and reacts to it. -/
def execute (v : Supervision) (refused : Bool) : Supervision :=
  let answer := v.session.execute Shell.batch
  { v with session := answer.session, answered := some answer.event }.react refused answer.event

/-- A reaction is a matter of the place and the children only. -/
theorem react_eq (v : Supervision) (refused : Bool) (event : Event) :
    v.react refused event =
      { v with
        roster := (v.react refused event).roster
        place := (v.react refused event).place } := by
  cases event with
  | launch => cases refused <;> rfl
  | exit status => cases status <;> rfl
  | _ => rfl

theorem execute_eq (v : Supervision) (refused : Bool) :
    v.execute refused =
      { v with
        session := (v.session.execute Shell.batch).session
        roster := (v.execute refused).roster
        place := (v.execute refused).place
        answered := some (v.session.execute Shell.batch).event } :=
  react_eq _ refused _

/-- One step: a child ends or Ctrl-C is pressed, at any time, or the loop goes on. -/
inductive Step (v : Supervision) : Supervision → Prop
  | finish (child : Nat) (ending : Ending) (runs : child ∈ v.roster.running) :
      Step v (v.finish child ending)
  | press : Step v { v with pressed := true }
  | look (heads : v.place = .head) : Step v v.look
  /-- A step of the call that is being made. One that waits looks at Ctrl-C before all else; to press it
  after that is the same as to press it after the step. -/
  | call {call : Call} {z : Roster} (calls : v.place = .calling call)
      (active : v.roster.stage.isFree = false) (step : v.roster.Step z)
      (own : z.finished = v.roster.finished)
      (heeds : v.roster.stage = .waiting call →
        (z.stage = .ended call .interrupted ↔ v.pressed = true)) :
      Step v { v with roster := z }
  | resume {call : Call} {result : Wait} (calls : v.place = .calling call)
      (ends : v.roster.stage = .ended call result) : Step v (v.resume call result)
  | execute (refused : Bool) (ready : v.place = .executing) : Step v (v.execute refused)

/-- There are steps that lead from one supervision to the other. -/
abbrev Leads (v w : Supervision) : Prop := Relation.ReflTransGen Step v w

/-- The machine's run was over, and not by an error or with another status. -/
def Finished (answered : Option Event) : Prop := answered = some .stopped ∨ answered = some (.exit 0)

end Supervision

open Supervision (Finished)

/-- What the last call and the last event say about the place. -/
def Place.Fits (stage : Stage) (answered : Option Event) : Place → Prop
  | head | executing => stage.isFree = true ∧ stage.failure? = none
  | calling call => stage.call? = some call ∧ (call = .drain → Finished answered)
  | ended status .child => stage.failure? = some status
  | ended status .drained => status = 0 ∧ stage = .ended .drain .done ∧ Finished answered
  | ended status _ => status ≠ 0

/-- The phase of a shell whose loop stands there. -/
def Place.Shows (stage : Stage) : Place → Phase → Prop
  | place, .looping => place = .head
  | place, .sleeping _ => place = .calling .sleep ∧ stage = .heading .sleep
  | place, .draining => place = .calling .drain ∧ stage = .heading .drain
  | place, .ended status => ∃ cause, place = .ended status cause

namespace Supervision

/-- What holds in every supervision that is reached. -/
structure Sound (v : Supervision) : Prop where
  accounted : v.roster.Accounted
  finished : v.roster.finished = v.endings.map fun (child, ending) => (child, ending.status)
  /-- All statuses that have been read are successes, up to a failure that ends the run. -/
  whole : v.roster.stage.Took v.roster.consumed
  fits : v.place.Fits v.roster.stage v.answered

theorem start_sound (session : Session) : (start session).Sound where
  accounted := Roster.empty_accounted
  finished := rfl
  whole := by simp [start, Roster.empty, Stage.Took]
  fits := ⟨rfl, rfl⟩

namespace Sound

variable {v : Supervision}

theorem finish (sound : v.Sound) {child : Nat} (runs : child ∈ v.roster.running) (ending : Ending) :
    (v.finish child ending).Sound where
  accounted := sound.accounted.finish runs ending.status
  finished := by simp [Supervision.finish, Roster.finish, sound.finished]
  whole := sound.whole
  fits := sound.fits

/-- Another call is made after one that has not failed. -/
theorem begin (sound : v.Sound) (free : v.roster.stage.isFree = true)
    (calm : v.roster.stage.failure? = none) {call : Call}
    (ended : call = .drain → Finished v.answered) : (v.begin call).Sound where
  accounted := sound.accounted.step (.begin call free)
  finished := sound.finished
  whole := (Stage.took_calm calm _).mp sound.whole
  fits := ⟨rfl, ended⟩

/-- The loop goes on to a place that fits. -/
theorem move (sound : v.Sound) {place : Place} (fits : place.Fits v.roster.stage v.answered) :
    Sound { v with place := place } :=
  { sound with fits }

theorem resume (sound : v.Sound) {call : Call} {result : Wait} (calls : v.place = .calling call)
    (ends : v.roster.stage = .ended call result) : (v.resume call result).Sound := by
  have fits := sound.fits
  rw [calls] at fits
  cases result with
  | failed status =>
    have failed : (Place.ended status .child).Fits v.roster.stage v.answered := by rw [ends]; rfl
    cases call <;> exact sound.move failed
  | done =>
    cases call with
    | reap | sleep => exact sound.move ⟨by rw [ends]; rfl, by rw [ends]; rfl⟩
    | drain => exact sound.move ⟨rfl, ends, fits.2 rfl⟩
  | interrupted =>
    cases call with
    | reap | sleep => exact sound.move ⟨by rw [ends]; rfl, by rw [ends]; rfl⟩
    | drain => exact sound.move Nat.one_ne_zero

theorem react (sound : v.Sound) (free : v.roster.stage.isFree = true)
    (calm : v.roster.stage.failure? = none) (refused : Bool) {event : Event}
    (last : v.answered = some event) : (v.react refused event).Sound := by
  have drains (ends : event = .stopped ∨ event = .exit 0) : (v.begin .drain).Sound := by
    refine sound.begin free calm fun _ => ?_
    rw [Finished, last]
    exact ends.imp (congrArg some) (congrArg some)
  cases event with
  | stopped => exact drains (.inl rfl)
  | running | print | inspect | warning => exact sound.move ⟨free, calm⟩
  | error => exact sound.move Nat.one_ne_zero
  | launch function line =>
    cases refused with
    | true => exact sound.move Nat.one_ne_zero
    | false =>
      exact ⟨sound.accounted.start, sound.finished, (Stage.took_calm calm _).mp sound.whole, rfl, rfl⟩
  | sleep => exact sound.begin free calm (by simp)
  | exit status =>
    cases status with
    | zero => exact drains (.inr rfl)
    | succ status => exact sound.move (Nat.succ_ne_zero status)

/-- Every step keeps it. -/
theorem step {w : Supervision} (sound : v.Sound) (step : v.Step w) : w.Sound := by
  have fits := sound.fits
  cases step with
  | finish child ending runs => exact sound.finish runs ending
  | press => exact { sound with }
  | look heads =>
    rw [heads] at fits
    exact begin (v := { v with
      session := if v.pressed then v.session.interrupt else v.session
      pressed := false
      heard := v.heard ++ if v.pressed then [v.session.machine.running] else [] })
      { sound with } fits.1 fits.2 (by simp)
  | call calls active step own heeds =>
    obtain ⟨same, whole⟩ := step.in_call active own sound.whole
    rw [calls] at fits
    refine ⟨sound.accounted.step step, own.trans sound.finished, whole, ?_⟩
    rw [calls]
    exact ⟨same.trans fits.1, fits.2⟩
  | resume calls ends => exact sound.resume calls ends
  | execute refused ready =>
    rw [ready] at fits
    exact react (v := { v with
      session := (v.session.execute Shell.batch).session
      answered := some (v.session.execute Shell.batch).event })
      ⟨sound.accounted, sound.finished, sound.whole, by rw [ready]; exact fits⟩ fits.1 fits.2 refused rfl

theorem leads {w : Supervision} (sound : v.Sound) (leads : v.Leads w) : w.Sound := by
  induction leads with
  | refl => exact sound
  | tail _ step ih => exact ih.step step

/-- The children that have ended, as far as their statuses have been read. -/
theorem statuses (sound : v.Sound) :
    v.endings.map (fun (_, ending) => ending.status) = v.roster.consumed ++ v.roster.crew.queue := by
  have order := sound.accounted.order
  rw [sound.finished, List.map_map] at order
  exact order

/-- When the loop has returned 0, all children have exited, with 0. -/
theorem returned_zero (sound : v.Sound) {cause : Cause} (ended : v.place = .ended 0 cause) :
    Finished v.answered ∧ v.roster.running = [] ∧ (∀ e ∈ v.endings, e.2 = .exited 0) ∧
      ∀ child, child < v.roster.started → (child, .exited 0) ∈ v.endings := by
  have fits := sound.fits
  rw [ended] at fits
  cases cause with
  | exit | error | refused | interrupted => exact absurd rfl fits
  | child => exact absurd rfl (Stage.took_failure fits sound.whole).1
  | drained =>
    obtain ⟨_, stage, finished⟩ := fits
    obtain ⟨idle, clear⟩ := sound.accounted.none_left (sound.accounted.drained stage)
    have zeros := (Stage.took_calm (by rw [stage]; rfl) _).mp sound.whole
    have all : ∀ e ∈ v.endings, e.2 = .exited 0 := by
      intro e member
      have read : e.2.status ∈ v.endings.map (fun (_, ending) => ending.status) :=
        List.mem_map_of_mem member
      rw [sound.statuses, clear, List.append_nil] at read
      exact Ending.status_eq_zero.mp (zeros _ read)
    refine ⟨finished, idle, all, fun child started => ?_⟩
    have once := sound.accounted.once
    rw [idle, List.append_nil, sound.finished, List.map_map] at once
    obtain ⟨⟨other, ending⟩, member, same⟩ :=
      List.mem_map.mp (once.mem_iff.mpr (List.mem_range.mpr started))
    obtain rfl : other = child := same
    obtain rfl : ending = .exited 0 := all _ member
    exact member

/-- A status that the loop returns because of a child is that of the first one that did not exit
with 0. -/
theorem returned_failure (sound : v.Sound) {status : Nat} (ended : v.place = .ended status .child) :
    ∃ before child ending after, v.endings = before ++ (child, ending) :: after ∧
      (∀ e ∈ before, e.2 = .exited 0) ∧ ending ≠ .exited 0 ∧ ending.status = status := by
  have fits := sound.fits
  rw [ended] at fits
  obtain ⟨failed, n, whole⟩ := Stage.took_failure fits sound.whole
  have statuses := sound.statuses
  rw [whole, List.append_assoc, List.singleton_append] at statuses
  obtain ⟨before, rest, split, early, later⟩ := List.map_eq_append_iff.mp statuses
  obtain ⟨⟨child, ending⟩, after, rfl, same, _⟩ := List.map_eq_cons_iff.mp later
  refine ⟨before, child, ending, after, split, fun e member => ?_, ?_, same⟩
  · have among : e.2.status ∈ before.map (fun (_, ending) => ending.status) :=
      List.mem_map_of_mem member
    rw [early] at among
    exact Ending.status_eq_zero.mp (List.eq_of_mem_replicate among)
  · rintro rfl
    exact failed same.symm

end Sound

/-- As many children end as there are statuses, in the order of the statuses. -/
theorem leads_arrive {v : Supervision} (statuses : List Nat)
    (enough : statuses.length ≤ v.roster.running.length) :
    ∃ z endings, v.Leads { v with roster := z, endings := endings } ∧
      z.crew = v.roster.crew.arrive statuses ∧ z.stage = v.roster.stage ∧
      z.running.length + statuses.length = v.roster.running.length := by
  induction statuses generalizing v with
  | nil => exact ⟨v.roster, v.endings, .refl, by simp [Crew.arrive], rfl, rfl⟩
  | cons status rest ih =>
    cases running : v.roster.running with
    | nil => simp [running] at enough
    | cons child others =>
      have step := Step.finish (v := v) child (.exited status) (by simp [running])
      have left : (v.finish child (.exited status)).roster.running = others := by
        simp [finish, Roster.finish, running]
      obtain ⟨z, endings, leads, crew, stage, length⟩ := @ih (v.finish child (.exited status)) (by
        rw [left]
        simpa [running] using enough)
      refine ⟨z, endings, .head step leads, ?_, stage, ?_⟩
      · simpa [finish, Roster.finish, Crew.arrive, Ending.status] using crew
      · rw [left] at length
        simp only [List.length_cons]
        omega

section
variable {v : Supervision} {call : Call}

/-- One more step of a call. -/
theorem leads_call {x z : Roster} {endings : List (Nat × Ending)} (calls : v.place = .calling call)
    (leads : v.Leads { v with roster := x, endings := endings }) (active : x.stage.isFree = false)
    (step : x.Step z) (own : z.finished = x.finished)
    (heeds : x.stage = .waiting call → (z.stage = .ended call .interrupted ↔ v.pressed = true)) :
    v.Leads { v with roster := z, endings := endings } :=
  leads.tail (.call (v := { v with roster := x, endings := endings }) calls active step own heeds)

/-- The call reads the queue, one status at a time. -/
theorem leads_reap (calls : v.place = .calling call) (reads : v.roster.stage = .reading call) :
    ∃ z, v.Leads { v with roster := z } ∧ z.crew = v.roster.crew.reap.2 ∧
      z.running = v.roster.running ∧
      z.stage = v.roster.crew.reap.1.elim (.reading call) fun status =>
        .ended call (.failed status) := by
  obtain ⟨z, all, ends⟩ := Roster.reads_all reads
  refine ⟨z, ?_, ends⟩
  clear ends
  induction all with
  | refl => exact .refl
  | tail _ one ih =>
    obtain ⟨reading, queued, rfl⟩ := one
    exact leads_call calls ih (by rw [reading]; rfl) (.read call reading queued) rfl
      fun waits => by cases reading.symm.trans waits

/-- A turn of a wait, from where it reads the queue. -/
theorem leads_wait (expired : Bool) (late : List Nat) (calls : v.place = .calling call)
    (reads : v.roster.stage = .reading call) (waits : call ≠ .reap)
    (timed : expired = true → call = .sleep) (enough : late.length ≤ v.roster.running.length) :
    ∃ z endings, v.Leads { v with roster := z, endings := endings } ∧
      z.crew = (v.roster.crew.waitTurn v.pressed expired late).2 ∧
      z.stage = (v.roster.crew.waitTurn v.pressed expired late).1.elim (.heading call)
        (.ended call) := by
  obtain ⟨x, leads, crew, running, stage⟩ := leads_reap calls reads
  rcases reaped : v.roster.crew.reap with ⟨status?, left⟩
  rw [reaped] at crew stage
  simp only [Crew.waitTurn, reaped]
  cases status? with
  | some status => exact ⟨x, v.endings, leads, crew, stage⟩
  | none =>
    have clear : x.crew.queue = [] := by rw [crew, Crew.reap_clear reaped]
    have passes := Roster.Step.pass call stage clear
    rw [if_neg waits] at passes
    replace leads := leads_call calls leads (by rw [stage]; rfl) passes rfl fun waits => by
      cases stage.symm.trans waits
    by_cases up : v.pressed = true
    · simp only [if_pos up]
      exact ⟨_, v.endings, leads_call calls leads rfl (.interrupt call rfl) rfl fun _ =>
        iff_of_true rfl up, crew, rfl⟩
    · simp only [if_neg up]
      cases expired with
      | true =>
        obtain rfl := timed rfl
        exact ⟨_, v.endings, leads_call calls leads rfl (.expire rfl) rfl fun _ => by simp [up],
          crew, rfl⟩
      | false =>
        obtain ⟨z, endings, arrives, crew', stage', _⟩ := leads_arrive late
          (v := { v with roster := { x with stage := .waiting call } }) (by
            rw [running]
            exact enough)
        refine ⟨z.read call (.heading call), endings, ?_, ?_, ?_⟩
        · refine leads_call calls (leads.trans arrives) (by rw [stage']; rfl) (.poll call stage') rfl
            fun _ => iff_of_false (fun ends => ?_) up
          rcases z.read_stage call (.heading call) with goes | ⟨status, failed⟩
          · cases goes.symm.trans ends
          · cases failed.symm.trans ends
        · simp [Roster.read, crew', crew]
        · simp [Roster.read, crew', crew]

/-- A turn of a call is a run of its steps, if no more children end in it than run. -/
theorem leads_turn (expired : Bool) (late : List Nat) (calls : v.place = .calling call)
    (heads : v.roster.stage = .heading call) (enough : late.length ≤ v.roster.running.length) :
    ∃ z endings, v.Leads { v with roster := z, endings := endings } ∧
      z.crew = (call.turn v.roster.crew v.pressed expired late).2 ∧
      z.stage = (call.turn v.roster.crew v.pressed expired late).1.elim (.heading call)
        (.ended call) := by
  have active : v.roster.stage.isFree = false := by rw [heads]; rfl
  have enter (left : call = .drain → v.roster.crew.outstanding ≠ 0) :
      v.Leads { v with roster := { v.roster with stage := .reading call } } :=
    leads_call calls .refl active (.enter call heads left) rfl fun waits => by
      cases heads.symm.trans waits
  cases call with
  | reap =>
    obtain ⟨z, leads, crew, _, stage⟩ :=
      leads_reap (v := { v with roster := { v.roster with stage := .reading .reap } }) calls rfl
    replace leads := (enter (by simp)).trans leads
    rcases reaped : v.roster.crew.reap with ⟨status?, left⟩
    rw [reaped] at crew stage
    simp only [Call.turn, reaped]
    cases status? with
    | some status => exact ⟨z, v.endings, leads, crew, stage⟩
    | none =>
      have clear : z.crew.queue = [] := by rw [crew, Crew.reap_clear reaped]
      exact ⟨_, v.endings, leads_call calls leads (by rw [stage]; rfl) (.pass .reap stage clear) rfl
        (fun waits => by cases stage.symm.trans waits), crew, rfl⟩
  | sleep =>
    obtain ⟨z, endings, leads, ends⟩ := leads_wait expired late
      (v := { v with roster := { v.roster with stage := .reading .sleep } }) calls rfl (by simp)
      (fun _ => rfl) enough
    exact ⟨z, endings, (enter (by simp)).trans leads, ends⟩
  | drain =>
    simp only [Call.turn, Crew.drainTurn]
    by_cases clear : v.roster.crew.outstanding = 0
    · rw [if_pos clear]
      exact ⟨_, v.endings, leads_call calls .refl active (.done heads clear) rfl
        (fun waits => by cases heads.symm.trans waits), rfl, rfl⟩
    · rw [if_neg clear]
      obtain ⟨z, endings, leads, ends⟩ := leads_wait false late
        (v := { v with roster := { v.roster with stage := .reading .drain } }) calls rfl (by simp)
        (by simp) enough
      exact ⟨z, endings, (enter fun _ => clear).trans leads, ends⟩

end

/-- The loop stands where the shell stands, between two turns. -/
structure Shows (v : Supervision) (s : Shell) : Prop where
  session : v.session = s.session
  pressed : v.pressed = s.pressed
  crew : v.roster.crew = s.crew
  place : v.place.Shows v.roster.stage s.phase

theorem start_shows (session : Session) (colors : Colors) :
    (start session).Shows (.start session colors) :=
  ⟨rfl, rfl, rfl, rfl⟩

/-- The loop reacts to an event as the shell does. -/
theorem react_shows {v : Supervision} {s : Shell} (session : v.session = s.session)
    (pressed : v.pressed = s.pressed) (crew : v.roster.crew = s.crew) (looping : s.phase = .looping)
    (m : Moment) (event : Event) :
    (v.react m.refusal.isSome event).Shows (s.handle m event).1 := by
  have stays : Shows { v with place := .head } s :=
    ⟨session, pressed, crew, by rw [looping]; rfl⟩
  have ends (status : Nat) (cause : Cause) : (v.endWith status cause).Shows (s.endWith status) :=
    ⟨session, pressed, crew, cause, rfl⟩
  have drains : (v.begin .drain).Shows { s with phase := .draining } :=
    ⟨session, pressed, crew, rfl, rfl⟩
  cases event with
  | stopped => exact drains
  | running | print | inspect | warning => exact stays
  | error => exact ends 1 .error
  | launch function line =>
    simp only [Shell.handle, react]
    cases m.refusal with
    | none => exact ⟨session, pressed, congrArg Crew.start crew, by simp only [looping]; rfl⟩
    | some reason => exact ends 1 .refused
  | sleep => exact ⟨session, pressed, crew, rfl, rfl⟩
  | exit status =>
    cases status with
    | zero => exact drains
    | succ status => exact ends (status + 1) .exit

/-- A turn of the main loop. -/
theorem shows_loop {v : Supervision} {s : Shell} (same : v.Shows s) (looping : s.phase = .looping)
    (m : Moment) : ∃ w, v.Leads w ∧ w.Shows (s.loop m).1 := by
  obtain ⟨session, pressed, crew, place⟩ := same
  rw [looping] at place
  obtain ⟨z, endings, reaps, crew', stage⟩ :=
    leads_turn (v := v.look) false [] rfl rfl (Nat.zero_le _)
  replace reaps := reaps.head (Step.look place)
  have handed : (if v.pressed then v.session.interrupt else v.session) =
      if s.pressed then s.session.interrupt else s.session := by rw [pressed, session]
  simp only [Call.turn, look, begin, crew] at crew' stage
  rcases reaped : s.crew.reap with ⟨status?, left⟩
  rw [reaped] at crew' stage
  simp only [Shell.loop, reaped]
  have back := reaps.tail (.resume rfl stage)
  cases status? with
  | some status => exact ⟨_, back, handed, rfl, crew', .child, rfl⟩
  | none =>
    refine ⟨_, back.tail (.execute m.refusal.isSome rfl), ?_⟩
    rw [← handed]
    exact react_shows
      (v := { v with
        session := ((if v.pressed then v.session.interrupt else v.session).execute Shell.batch).session
        pressed := false
        roster := z
        place := .executing
        answered := _
        endings
        heard := _ })
      (s := { s with session := _, pressed := false, crew := left }) rfl rfl crew' looping m _

/-- A turn of the shell is a run of steps, if no more children end in it than run. -/
theorem shows_turn {v : Supervision} {s : Shell} {m : Moment} (same : v.Shows s)
    (enough : m.finished.length + m.late.length ≤ v.roster.running.length) :
    ∃ w, v.Leads w ∧ w.Shows (s.turn m).1 := by
  obtain ⟨session, pressed, crew, place⟩ := same
  -- Children end and Ctrl-C is pressed before the loop goes on.
  obtain ⟨x, endings, arrives, crew', stage, left⟩ := leads_arrive m.finished (v := v) (by omega)
  let u : Supervision := { v with roster := x, endings, pressed := v.pressed || m.pressed }
  have before : v.Leads u := by
    cases down : m.pressed with
    | false => simpa [u, down] using arrives
    | true => simpa [u, down] using arrives.tail .press
  have up : u.pressed = (s.pressed || m.pressed) := by simp only [u, pressed]
  rw [crew] at crew'
  rw [← stage] at place
  -- A call that goes on makes its turn then.
  have waits {call : Call} (calls : v.place = .calling call) (heads : x.stage = .heading call) :
      ∃ z endings, v.Leads { u with roster := z, endings } ∧
        z.crew =
          (call.turn (s.crew.arrive m.finished) (s.pressed || m.pressed) m.expired m.late).2 ∧
        z.stage =
          (call.turn (s.crew.arrive m.finished) (s.pressed || m.pressed) m.expired m.late).1.elim
            (.heading call) (.ended call) := by
    obtain ⟨z, endings, leads, ends⟩ := leads_turn (v := u) m.expired m.late calls heads
      (show m.late.length ≤ x.running.length by omega)
    rw [up, show u.roster.crew = s.crew.arrive m.finished from crew'] at ends
    exact ⟨z, endings, before.trans leads, ends⟩
  simp only [Shell.turn]
  cases phase : s.phase with
  | looping =>
    rw [phase] at place
    obtain ⟨w, leads, result⟩ := shows_loop (v := u)
      (s := { s with pressed := s.pressed || m.pressed, crew := s.crew.arrive m.finished })
      ⟨session, up, crew', by rw [phase]; exact place⟩ phase m
    rw [phase] at result
    exact ⟨w, before.trans leads, result⟩
  | sleeping milliseconds =>
    rw [phase] at place
    obtain ⟨z, endings, leads, crew, stage⟩ := waits place.1 place.2
    simp only [Call.turn] at crew stage
    generalize (s.crew.arrive m.finished).waitTurn (s.pressed || m.pressed) m.expired m.late =
      outcome at crew stage ⊢
    rcases outcome with ⟨_ | result, left⟩
    · exact ⟨_, leads, session, up, crew, place.1, stage⟩
    · have back := leads.tail (.resume place.1 stage)
      cases result with
      | failed status => exact ⟨_, back, session, up, crew, .child, rfl⟩
      | done | interrupted => exact ⟨_, back, session, up, crew, rfl⟩
  | draining =>
    rw [phase] at place
    obtain ⟨z, endings, leads, crew, stage⟩ := waits place.1 place.2
    simp only [Call.turn] at crew stage
    generalize (s.crew.arrive m.finished).drainTurn (s.pressed || m.pressed) m.late =
      outcome at crew stage ⊢
    rcases outcome with ⟨_ | result, left⟩
    · exact ⟨_, leads, session, up, crew, place.1, stage⟩
    · have back := leads.tail (.resume place.1 stage)
      cases result with
      | failed status => exact ⟨_, back, session, up, crew, .child, rfl⟩
      | done => exact ⟨_, back, session, up, crew, .drained, rfl⟩
      | interrupted => exact ⟨_, back, session, up, crew, .interrupted, rfl⟩
  | ended status =>
    rw [phase] at place
    exact ⟨u, before, session, up, crew', place⟩

/-- The loop once it has looked around and seen nothing. -/
def checked (v : Supervision) : Supervision :=
  { v with
    roster := { v.roster with taken := [], stage := .ended .reap .done }
    place := .executing }

theorem leads_checked {v : Supervision} (heads : v.place = .head) (down : v.pressed = false)
    (clear : v.roster.crew.queue = []) : v.Leads v.checked := by
  have looked : v.look = v.begin .reap := by
    cases v
    subst down
    simp [look, begin]
  have calls : (v.begin .reap).place = .calling .reap := rfl
  have first : v.Leads (v.begin .reap) := looked ▸ .single (.look heads)
  have reading := leads_call calls .refl rfl (.enter .reap rfl (by simp)) rfl (by simp [begin])
  have passed := leads_call calls reading rfl (.pass .reap rfl clear) rfl (by simp)
  let w : Supervision := { v.checked with place := .calling .reap }
  have back : w.Step (w.resume .reap .done) := .resume rfl rfl
  exact (first.trans passed).tail back

/-- Whatever the program does, however its children end and whenever Ctrl-C is pressed: the loop
returns 0 only after the machine has come to its end, and then every child that was started has exited
with 0; and a status that it returns because of a child is that of the first one that ended otherwise.
The turns of a shell are runs of the loop. -/
theorem clean_exit {session : Session} {v : Supervision} (reached : (start session).Leads v) :
    (∀ cause, v.place = .ended 0 cause →
      (v.answered = some .stopped ∨ v.answered = some (.exit 0)) ∧ v.roster.running = [] ∧
        (∀ child, child < v.roster.started → (child, .exited 0) ∈ v.endings) ∧
        ∀ e ∈ v.endings, e.2 = .exited 0) ∧
      (∀ status, v.place = .ended status .child →
        ∃ before child ending after, v.endings = before ++ (child, ending) :: after ∧
          (∀ e ∈ before, e.2 = .exited 0) ∧ ending ≠ .exited 0 ∧ ending.status = status) ∧
      (∀ colors, (start session).Shows (.start session colors)) ∧
      ∀ s m, v.Shows s → m.finished.length + m.late.length ≤ v.roster.running.length →
        ∃ w, v.Leads w ∧ w.Shows (s.turn m).1 := by
  have sound := (start_sound session).leads reached
  refine ⟨fun cause ended => ?_, fun status ended => sound.returned_failure ended,
    start_shows session, fun s m same enough => shows_turn same enough⟩
  obtain ⟨finished, idle, all, every⟩ := sound.returned_zero ended
  exact ⟨finished, idle, every, all⟩

/-- Two children are waited for. If the second exits with 0 and then the first is killed, the loop
returns 1; if both exit with 0, it returns 0. -/
theorem clean_exit_killed :
    ∃ s v w, (Session.load "async f\nasync f\nfunction f\nendfunction" none).2 = .ok s ∧
      (start s).Leads v ∧ v.endings = [(1, .exited 0), (0, .killed 9)] ∧ v.place = .ended 1 .child ∧
      (∃ before child ending after, v.endings = before ++ (child, ending) :: after ∧
        (∀ e ∈ before, e.2 = .exited 0) ∧ ending ≠ .exited 0 ∧ ending.status = 1) ∧
      (start s).Leads w ∧ w.place = .ended 0 .drained ∧ w.roster.started = 2 ∧
      w.roster.running = [] ∧ (0, .exited 0) ∈ w.endings ∧ (1, .exited 0) ∈ w.endings := by
  obtain ⟨s, loaded, computed⟩ := Session.loaded_with "async f\nasync f\nfunction f\nendfunction" none
    (fun s =>
      let a := (start s).checked.execute false
      let b := a.checked.execute false
      let c := b.checked.execute false
      ([a, b, c].map place, [a, b].map fun v => v.roster.crew.queue, c.roster))
    ([.head, .head, .calling .drain], [[], []], ⟨⟨2, []⟩, 2, [0, 1], [], [], [], .heading .drain⟩)
    (by decide +kernel)
  simp only [List.map_cons, List.map_nil, Prod.mk.injEq, List.cons.injEq, and_true] at computed
  obtain ⟨⟨first, second, drains⟩, ⟨clear, clear'⟩, roster⟩ := computed
  have launch {v : Supervision} (heads : v.place = .head) (down : v.pressed = false)
      (clear : v.roster.crew.queue = []) : v.Leads (v.checked.execute false) :=
    (leads_checked heads down clear).tail (.execute false rfl)
  have still (v : Supervision) : (v.checked.execute false).pressed = v.pressed ∧
      (v.checked.execute false).endings = v.endings := by
    rw [execute_eq]
    exact ⟨rfl, rfl⟩
  obtain ⟨c, leads, drains, down, none, roster⟩ : ∃ c, (start s).Leads c ∧ c.place = .calling .drain ∧
      c.pressed = false ∧ c.endings = [] ∧
      c.roster = ⟨⟨2, []⟩, 2, [0, 1], [], [], [], .heading .drain⟩ := by
    have down := (still (start s)).1
    have down' := (still _).1.trans down
    refine ⟨_, ((launch rfl rfl rfl).trans (launch first down clear)).trans (launch second down' clear'),
      drains, (still _).1.trans down', ?_, roster⟩
    rw [(still _).2, (still _).2, (still _).2]
    rfl
  obtain ⟨session, pressed, _, place, answered, _, heard⟩ := c
  simp only at drains down none roster
  subst drains down none roster
  let stand (y : Roster) (endings : List (Nat × Ending)) : Supervision :=
    ⟨session, false, y, .calling .drain, answered, endings, heard⟩
  have child {y : Roster} {endings : List (Nat × Ending)} (child : Nat) (ending : Ending)
      (runs : child ∈ y.running) :
      (stand y endings).Leads (stand (y.finish child ending.status) (endings ++ [(child, ending)])) :=
    .single (.finish child ending runs)
  have drain {y z : Roster} {endings : List (Nat × Ending)} (step : y.Step z)
      (active : y.stage.isFree = false ∧ z.finished = y.finished ∧
        z.stage ≠ .ended .drain .interrupted) : (stand y endings).Leads (stand z endings) :=
    .single (.call rfl active.1 step active.2.1 fun _ => iff_of_false active.2.2 nofun)
  have waits := leads.trans (drain (.enter .drain rfl (by decide)) (by decide))
  have second := waits.trans (child 1 (.exited 0) (by decide))
  have failed := ((second.trans (drain (.read .drain rfl (by decide)) (by decide))).trans
    (child 0 (.killed 9) (by decide))).trans (drain (.read .drain rfl (by decide)) (by decide))
  have drained := (((((second.trans (child 0 (.exited 0) (by decide))).trans
    (drain (.read .drain rfl (by decide)) (by decide))).trans
    (drain (.read .drain rfl (by decide)) (by decide))).trans
    (drain (.pass .drain rfl rfl) (by decide))).trans
    (drain (.poll .drain rfl) (by decide))).trans
    (drain (.done rfl rfl) (by decide))
  replace failed := failed.tail (.resume rfl rfl)
  replace drained := drained.tail (.resume rfl rfl)
  obtain ⟨_, idle, all, _⟩ := (clean_exit drained).1 .drained rfl
  exact ⟨s, _, _, loaded, failed, rfl, rfl, (clean_exit failed).2.1 1 rfl, drained, rfl, rfl, idle,
    all 0 (by decide : 0 < 2), all 1 (by decide : 1 < 2)⟩

end Supervision

end RegisterMachine
