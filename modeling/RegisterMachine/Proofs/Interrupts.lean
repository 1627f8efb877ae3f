import RegisterMachine.Proofs.Endings
import RegisterMachine.Proofs.Supervision

/-!
What becomes of Ctrl-C. The main loop hands it on to the machine, and a machine that is still running
stops then, so that the loop never gets to wait for the last children (`Alert`). If it does get there
with Ctrl-C up, the wait is given up (`Doomed`). So an interruption is lost only if the machine's run
was over when it was handed on, and some of what the machine had raised was still to be shown
(`interrupt_kept_or_late`, `interrupt_lost`).
-/

namespace RegisterMachine

theorem Settled.tail {event : Event} {events : List Event} {running : Bool}
    (settled : Settled (event :: events) running) : Settled events running :=
  ⟨(List.pairwise_cons.mp settled.closing).2,
    fun awake other member => settled.calm awake other (List.mem_cons_of_mem _ member)⟩

namespace Crew

theorem reapFrom_failed {outstanding status : Nat} {queue : List Nat} {left : Crew}
    (reaped : reapFrom outstanding queue = (some status, left)) : status ≠ 0 := by
  fun_induction reapFrom outstanding queue with
  | case1 => cases reaped
  | case2 outstanding rest ih => exact ih reaped
  | case3 outstanding other rest failed =>
    cases reaped
    exact failed

/-- An interrupted wait for children that are left ends at once, and not well. -/
theorem drainTurn_interrupted {c : Crew} (left : c.outstanding ≠ 0) (late : List Nat) :
    (c.drainTurn true late).1 = some .interrupted ∨
      ∃ status, status ≠ 0 ∧ (c.drainTurn true late).1 = some (.failed status) := by
  unfold drainTurn waitTurn
  rw [if_neg left]
  rcases reaped : c.reap with ⟨_ | status, rest⟩
  · exact .inl rfl
  · exact .inr ⟨status, reapFrom_failed reaped, rfl⟩

end Crew

namespace Session

/-- A running machine that is asked to stop gives out what waits, and then stops with an error. -/
theorem execute_interrupted {s : Session} (settled : Settled s.pending s.machine.running)
    (asked : s.interrupted = true) (running : s.machine.running = true) (budget : Nat) :
    ((s.execute budget).event.isFinal = false ∧ (s.execute budget).session.interrupted = true ∧
        (s.execute budget).session.machine.running = true) ∨
      ∃ d, (s.execute budget).event = .error d := by
  have reply := s.execute_reply budget
  generalize s.effort (.execute budget) = steps, (s.execute budget).event = event,
    (s.execute budget).session = next at reply
  cases reply with
  | waiting event rest queue =>
    exact .inl ⟨settled.calm running event (by simp [queue]), asked, running⟩
  | ended clear ended =>
    rw [running] at ended
    cases ended
  | broken => exact .inr ⟨_, rfl⟩
  | silent _ _ unasked | spoken _ _ _ _ _ unasked =>
    rw [asked] at unasked
    cases unasked

end Session

namespace Supervision

theorem react_calm {event : Event} (calm : event.isFinal = false) (v : Supervision) (refused : Bool) :
    (v.react refused event).place ≠ .calling .drain := by
  cases event with
  | stopped | error | exit => cases calm
  | launch => cases refused <;> simp [react, endWith]
  | running | print | inspect | warning | sleep => simp [react, begin]

/-- What is known once Ctrl-C has gone on to a machine. -/
structure Alert (v : Supervision) : Prop where
  settled : Settled v.session.pending v.session.machine.running
  /-- A machine that was running is still to stop for it, or the loop has returned. -/
  heeded : true ∈ v.heard →
    (v.session.interrupted = true ∧ v.session.machine.running = true ∧ v.place ≠ .calling .drain) ∨
      ∃ status cause, v.place = .ended status cause

theorem start_alert (m : Machine) : (start (.ofMachine m)).Alert :=
  ⟨.of_calm (by simp [start, Session.ofMachine]) _, by simp [start]⟩

namespace Alert

variable {v w : Supervision}

/-- A loop that has not returned holds on to what a running machine was told. -/
theorem pending (alert : v.Alert) (heard : true ∈ v.heard)
    (active : ∀ status cause, v.place ≠ .ended status cause) :
    v.session.interrupted = true ∧ v.session.machine.running = true ∧ v.place ≠ .calling .drain :=
  (alert.heeded heard).resolve_right fun ⟨status, cause, ended⟩ => active status cause ended

theorem look (alert : v.Alert) (heads : v.place = .head) : v.look.Alert := by
  have active (status : Nat) (cause : Cause) : v.place ≠ .ended status cause := by simp [heads]
  unfold Supervision.look
  split
  · refine ⟨alert.settled, fun heard => .inl ⟨rfl, ?_, by simp [begin]⟩⟩
    rcases List.mem_append.mp heard with earlier | now
    · exact (alert.pending earlier active).2.1
    · exact (List.mem_singleton.mp now).symm
  · refine ⟨alert.settled, fun heard => .inl ?_⟩
    obtain ⟨asked, running, _⟩ := alert.pending (by simpa [begin] using heard) active
    exact ⟨asked, running, by simp [begin]⟩

theorem resume (alert : v.Alert) {call : Call} (calls : v.place = .calling call) (result : Wait) :
    (v.resume call result).Alert := by
  have active (status : Nat) (cause : Cause) : v.place ≠ .ended status cause := by simp [calls]
  have ends (status : Nat) (cause : Cause) : (v.endWith status cause).Alert :=
    ⟨alert.settled, fun _ => .inr ⟨status, cause, rfl⟩⟩
  have goes (place : Place) (other : place ≠ .calling .drain) : Alert { v with place := place } := by
    refine ⟨alert.settled, fun heard => .inl ?_⟩
    obtain ⟨asked, running, _⟩ := alert.pending heard active
    exact ⟨asked, running, other⟩
  cases result with
  | failed status => cases call <;> exact ends status .child
  | done | interrupted =>
    cases call with
    | reap => exact goes .executing (by simp)
    | sleep => exact goes .head (by simp)
    | drain => exact ends _ _

theorem execute (alert : v.Alert) (refused : Bool) (ready : v.place = .executing) :
    (v.execute refused).Alert := by
  have active (status : Nat) (cause : Cause) : v.place ≠ .ended status cause := by simp [ready]
  have before : Settled ([] ++ v.session.pending) v.session.machine.running := alert.settled
  have settled := (Session.execute_settled before Shell.batch).tail
  rw [execute_eq]
  refine ⟨settled, fun heard => ?_⟩
  obtain ⟨asked, running, _⟩ := alert.pending heard active
  rcases Session.execute_interrupted alert.settled asked running Shell.batch with
    ⟨calm, asked', running'⟩ | ⟨d, stops⟩
  · exact .inl ⟨asked', running', react_calm calm _ refused⟩
  · refine .inr ⟨1, .error, ?_⟩
    simp only [Supervision.execute, stops]
    rfl

theorem step (alert : v.Alert) (step : v.Step w) : w.Alert := by
  cases step with
  | finish child ending runs => exact ⟨alert.settled, alert.heeded⟩
  | press => exact ⟨alert.settled, alert.heeded⟩
  | look heads => exact alert.look heads
  | call calls active step own heeds => exact ⟨alert.settled, alert.heeded⟩
  | resume calls ends => exact alert.resume calls _
  | execute refused ready => exact alert.execute refused ready

theorem leads (alert : v.Alert) (leads : v.Leads w) : w.Alert := by
  induction leads with
  | refl => exact alert
  | tail _ step ih => exact ih.step step

end Alert

end Supervision

/-- A wait for all children is not done, and not about to be. -/
def Roster.Unfinished (y : Roster) : Prop :=
  y.stage ≠ .ended .drain .done ∧ (y.stage = .heading .drain → y.crew.outstanding ≠ 0)

/-- A wait that sees Ctrl-C up is never done. -/
theorem Roster.Unfinished.step {y z : Roster} (unfinished : y.Unfinished)
    (calls : y.stage.call? = some .drain) (active : y.stage.isFree = false) (step : y.Step z)
    (heeds : y.stage = .waiting .drain → z.stage = .ended .drain .interrupted) : z.Unfinished := by
  cases step with
  | start free | refuse free | begin call free =>
    rw [free] at active
    cases active
  | finish => exact unfinished
  | done heads clear => exact absurd clear (unfinished.2 heads)
  | enter => exact ⟨nofun, nofun⟩
  | read call reads queued =>
    rcases y.read_stage call (.reading call) with goes | ⟨status, failed⟩
    · exact ⟨by simp [goes], by simp [goes]⟩
    · exact ⟨by simp [failed], by simp [failed]⟩
  | pass call reads clear =>
    rw [reads] at calls
    cases calls
    exact ⟨nofun, nofun⟩
  | interrupt => exact ⟨nofun, nofun⟩
  | expire waits =>
    rw [waits] at calls
    cases calls
  | poll call waits =>
    have ends := heeds (by rw [waits] at calls ⊢; cases calls; rfl)
    exact ⟨by simp [ends], by simp [ends]⟩

namespace Supervision

/-- Ctrl-C is up while the loop waits for children that are left; or the loop has returned for that
reason, or because of a child. -/
inductive Doomed (v : Supervision) : Prop
  | waits (up : v.pressed = true) (calls : v.place = .calling .drain)
      (unfinished : v.roster.Unfinished)
  | ended (status : Nat) (cause : Cause) (ended : v.place = .ended status cause) (failed : status ≠ 0)
      (reason : cause = .child ∨ cause = .interrupted ∧ status = 1)

namespace Doomed

variable {v w : Supervision}

theorem resume (sound : v.Sound) (unfinished : v.roster.Unfinished) {result : Wait}
    (ends : v.roster.stage = .ended .drain result) : (v.resume .drain result).Doomed := by
  cases result with
  | done => exact absurd ends unfinished.1
  | interrupted => exact .ended 1 .interrupted rfl Nat.one_ne_zero (.inr ⟨rfl, rfl⟩)
  | failed status =>
    have failed := Stage.took_failure (by rw [ends]; rfl) sound.whole
    exact .ended status .child rfl failed.1 (.inl rfl)

theorem step (doomed : v.Doomed) (sound : v.Sound) (step : v.Step w) : w.Doomed := by
  cases doomed with
  | waits up calls unfinished =>
    cases step with
    | finish child ending runs => exact .waits up calls unfinished
    | press => exact .waits rfl calls unfinished
    | look heads => cases calls.symm.trans heads
    | call calls' active step own heeds =>
      cases calls.symm.trans calls'
      have fits := sound.fits
      rw [calls] at fits
      exact .waits up calls (unfinished.step fits.1 active step fun waits => (heeds waits).mpr up)
    | resume calls' ends =>
      cases calls.symm.trans calls'
      exact resume sound unfinished ends
    | execute refused ready => cases calls.symm.trans ready
  | ended status cause ended failed reason =>
    cases step with
    | finish | press => exact .ended status cause ended failed reason
    | look heads => cases ended.symm.trans heads
    | call calls => cases ended.symm.trans calls
    | resume calls => cases ended.symm.trans calls
    | execute refused ready => cases ended.symm.trans ready

theorem leads (doomed : v.Doomed) (sound : v.Sound) (leads : v.Leads w) : w.Doomed := by
  induction leads with
  | refl => exact doomed
  | tail before step ih => exact ih.step (sound.leads before) step

end Doomed

/-- Ctrl-C stays up until it goes on to the machine. -/
theorem Step.remembers {v w : Supervision} (step : v.Step w)
    (known : v.pressed = true ∨ v.heard ≠ []) : w.pressed = true ∨ w.heard ≠ [] := by
  cases step with
  | finish | call => exact known
  | press => exact .inl rfl
  | look =>
    refine .inr ?_
    simp only [Supervision.look, begin]
    rcases known with up | heard
    · simp [up]
    · simp [heard]
  | @resume call result =>
    have same : (v.resume call result).pressed = v.pressed ∧ (v.resume call result).heard = v.heard := by
      cases result <;> cases call <;> exact ⟨rfl, rfl⟩
    rw [same.1, same.2]
    exact known
  | execute =>
    rw [execute_eq]
    exact known

theorem Leads.remembers {v w : Supervision} (leads : v.Leads w)
    (known : v.pressed = true ∨ v.heard ≠ []) : w.pressed = true ∨ w.heard ≠ [] := by
  induction leads with
  | refl => exact known
  | tail _ step ih => exact step.remembers ih

/-- A shell that waits for the last children with Ctrl-C up ends in its next turn, and not with 0. -/
theorem shell_gives_up {v : Supervision} {s : Shell} (same : v.Shows s) (up : v.pressed = true)
    (calls : v.place = .calling .drain) (left : v.roster.crew.outstanding ≠ 0) (m : Moment) :
    ∃ status, status ≠ 0 ∧ (s.turn m).1.phase = .ended status := by
  obtain ⟨_, pressed, crew, place⟩ := same
  rw [calls] at place
  cases phase : s.phase with
  | looping => rw [phase] at place; cases place
  | sleeping => rw [phase] at place; cases place.1
  | ended => rw [phase] at place; obtain ⟨_, other⟩ := place; cases other
  | draining =>
    have flag : (s.pressed || m.pressed) = true := by simp [← pressed, up]
    have outstanding : (s.crew.arrive m.finished).outstanding ≠ 0 := by rw [← crew]; exact left
    simp only [Shell.turn, phase, flag]
    have gives := Crew.drainTurn_interrupted outstanding m.late
    generalize (s.crew.arrive m.finished).drainTurn true m.late = outcome at gives
    obtain ⟨wait, rest⟩ := outcome
    rcases gives with interrupted | ⟨status, failed, stopped⟩
    · obtain rfl : wait = some .interrupted := interrupted
      exact ⟨1, Nat.one_ne_zero, rfl⟩
    · obtain rfl : wait = some (.failed status) := stopped
      exact ⟨status, failed, rfl⟩

/-- Ctrl-C is pressed, and later the loop goes to wait for the last children, of which some are left.
If Ctrl-C is still up then, the loop returns 1 for it or the status of a child that failed, and the
shell does so in its next turn. If it is not, then the machine's run was over each time that Ctrl-C
went on to it. -/
theorem interrupt_kept_or_late {source : String} {entry : Option String} {s : Session}
    (loaded : (Session.load source entry).2 = .ok s) {u v : Supervision} (before : (start s).Leads u)
    (pressed : u.pressed = true) (after : u.Leads v) (calls : v.place = .calling .drain)
    (begins : v.roster.stage = .heading .drain) (left : v.roster.crew.outstanding ≠ 0) :
    (v.pressed = true ∧
        (∀ w status cause, v.Leads w → w.place = .ended status cause →
          status ≠ 0 ∧ (cause = .child ∨ cause = .interrupted ∧ status = 1)) ∧
        ∀ shell m, v.Shows shell →
          ∃ status, status ≠ 0 ∧ (shell.turn m).1.phase = .ended status) ∨
      (v.pressed = false ∧ v.heard ≠ [] ∧ ∀ running ∈ v.heard, running = false) := by
  have sound := (start_sound s).leads (before.trans after)
  cases up : v.pressed with
  | true =>
    refine .inl ⟨rfl, fun w status cause leads ended => ?_, fun shell m same =>
      shell_gives_up same up calls left m⟩
    have unfinished : v.roster.Unfinished := ⟨by simp [begins], fun _ => left⟩
    cases (Doomed.waits up calls unfinished).leads sound leads with
    | waits _ calls' => cases calls'.symm.trans ended
    | ended status' cause' ended' failed reason =>
      cases ended'.symm.trans ended
      exact ⟨failed, reason⟩
  | false =>
    refine .inr ⟨rfl, ?_, fun running heard => ?_⟩
    · rcases after.remembers (.inl pressed) with still | heard
      · rw [up] at still
        cases still
      · exact heard
    · obtain ⟨_, fresh, _, _⟩ := Session.load_ok loaded
      rw [fresh] at before
      have alert := (start_alert s.machine).leads (before.trans after)
      cases running with
      | false => rfl
      | true => exact absurd calls (alert.pending heard (by simp [calls])).2.2

/-- Ctrl-C is pressed just before the machine comes to its end, while a child runs. -/
theorem interrupt_kept_or_late_last :
    ∃ s u v, (Session.load "async f\nfunction f\nendfunction" none).2 = .ok s ∧
      (start s).Leads u ∧ u.pressed = true ∧ u.Leads v ∧ v.place = .calling .drain ∧
      v.roster.crew = ⟨1, []⟩ ∧ v.heard = [] ∧
      ∀ w status cause, v.Leads w → w.place = .ended status cause →
        status ≠ 0 ∧ (cause = .child ∨ cause = .interrupted ∧ status = 1) := by
  obtain ⟨s, loaded, computed⟩ := Session.loaded_with "async f\nfunction f\nendfunction" none
    (fun s =>
      let a := (start s).checked.execute false
      let b := { a.checked with pressed := true }.execute false
      (a.place, a.roster.crew.queue, b.place, b.roster))
    (.head, [], .calling .drain, ⟨⟨1, []⟩, 1, [0], [], [], [], .heading .drain⟩) (by decide +kernel)
  simp only [Prod.mk.injEq] at computed
  obtain ⟨heads, clear, calls, roster⟩ := computed
  have launched := (leads_checked (v := start s) rfl rfl rfl).tail (.execute false rfl)
  have still : ((start s).checked.execute false).pressed = false ∧
      ((start s).checked.execute false).heard = [] := by
    rw [execute_eq]
    exact ⟨rfl, rfl⟩
  have before := (launched.trans (leads_checked heads still.1 clear)).tail .press
  have after := Relation.ReflTransGen.single (Step.execute (v :=
    { ((start s).checked.execute false).checked with pressed := true }) false rfl)
  have up : ({ ((start s).checked.execute false).checked with pressed := true }.execute
      false).pressed = true := by rw [execute_eq]
  have kept := interrupt_kept_or_late loaded before rfl after calls (by rw [roster]) (by simp [roster])
  refine ⟨s, _, _, loaded, before, rfl, after, calls, by rw [roster], ?_, ?_⟩
  · rw [execute_eq]
    exact still.2
  · rcases kept with ⟨_, ends, _⟩ | ⟨down, _⟩
    · exact ends
    · rw [up] at down
      cases down

/-- Ctrl-C is pressed after an exit has shown its first line, while a child runs: it goes on to a
machine whose run is over, and the shell waits for the child and ends with 0. -/
theorem interrupt_lost :
    ∃ s, (Session.load "async w\nexit \"x\"\nfunction w\nendfunction\n" none).2 = .ok s ∧
      let quiet : Moment := ⟨false, [], [], false, none⟩
      let turns (moments : List Moment) (shell : Shell) : Shell :=
        moments.foldl (fun shell m => (shell.turn m).1) shell
      let shown := turns [quiet, quiet] (.start s ⟨false, false⟩)
      let late := turns [⟨true, [], [], false, none⟩, quiet] shown
      shown.phase = .looping ∧ shown.session.machine.running = false ∧
        late.phase = .draining ∧ late.crew = ⟨1, []⟩ ∧ late.pressed = false ∧
        (turns [⟨false, [0], [], false, none⟩, quiet] late).phase = .ended 0 := by
  obtain ⟨s, loaded, computed⟩ := Session.loaded_with
    "async w\nexit \"x\"\nfunction w\nendfunction\n" none
    (fun s =>
      let quiet : Moment := ⟨false, [], [], false, none⟩
      let turns (moments : List Moment) (shell : Shell) : Shell :=
        moments.foldl (fun shell m => (shell.turn m).1) shell
      let shown := turns [quiet, quiet] (.start s ⟨false, false⟩)
      let late := turns [⟨true, [], [], false, none⟩, quiet] shown
      (shown.phase, shown.session.machine.running, late.phase, late.crew, late.pressed,
        (turns [⟨false, [0], [], false, none⟩, quiet] late).phase))
    (.looping, false, .draining, ⟨1, []⟩, false, .ended 0) (by decide +kernel)
  simp only [Prod.mk.injEq] at computed
  exact ⟨s, loaded, computed⟩

end Supervision

end RegisterMachine
