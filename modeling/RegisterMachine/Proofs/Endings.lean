import RegisterMachine.Proofs.Placement
import RegisterMachine.Proofs.Warnings

/-!
How runs end. What a session has answered, with what still waits in it, holds at most one error or exit,
and nothing but the end comes after one (`Settled`). As soon as one is raised, the machine stays as it
is, whatever is asked then.
-/

namespace RegisterMachine

namespace Event

/-- Tells how the run has ended. -/
def isVerdict : Event → Bool
  | .error _ | .exit _ => true
  | _ => false

/-- Belongs to a run that has ended. -/
def isFinal : Event → Bool
  | .stopped | .error _ | .exit _ => true
  | _ => false

theorem isFinal_of_isVerdict {event : Event} (verdict : event.isVerdict = true) :
    event.isFinal = true := by
  cases event <;> first | rfl | cases verdict

end Event

/-- Only the end comes after an event of a run that has ended, and there is no such event while the run
goes on. -/
structure Settled (events : List Event) (running : Bool) : Prop where
  closing : events.Pairwise fun earlier later => earlier.isFinal = true → later = .stopped
  calm : running = true → ∀ event ∈ events, event.isFinal = false

namespace Settled

theorem last (event : Event) : Settled [event] false :=
  ⟨List.pairwise_singleton .., fun running => by cases running⟩

theorem of_calm {events : List Event} (calm : ∀ event ∈ events, event.isFinal = false)
    (running : Bool) : Settled events running := by
  refine ⟨List.pairwise_of_forall_mem_list ?_, fun _ => calm⟩
  intro earlier member later _ final
  rw [calm earlier member] at final
  cases final

theorem append {before after : List Event} {running : Bool}
    (calm : ∀ event ∈ before, event.isFinal = false) (settled : Settled after running) :
    Settled (before ++ after) running := by
  refine ⟨List.pairwise_append.mpr ⟨(of_calm calm true).closing, settled.closing, ?_⟩, ?_⟩
  · intro earlier member later _ final
    rw [calm earlier member] at final
    cases final
  · intro awake event member
    rcases List.mem_append.mp member with early | late
    · exact calm event early
    · exact settled.calm awake event late

/-- There is at most one error or exit. -/
theorem verdicts {events : List Event} {running : Bool} (settled : Settled events running) :
    (events.filter Event.isVerdict).length ≤ 1 := by
  have closing := settled.closing.filter Event.isVerdict
  cases found : events.filter Event.isVerdict with
  | nil => exact Nat.zero_le 1
  | cons first others =>
    cases others with
    | nil => exact Nat.le_refl 1
    | cons second rest =>
      have verdict {event : Event} (member : event ∈ first :: second :: rest) :
          event.isVerdict = true := (List.mem_filter.mp (found ▸ member)).2
      rw [found, List.pairwise_cons] at closing
      have stopped := closing.1 second (by simp) (Event.isFinal_of_isVerdict (verdict (by simp)))
      have other : second.isVerdict = true := verdict (by simp)
      rw [stopped] at other
      cases other

end Settled

namespace Machine

/-- A step raises at most one event that ends the run, as its last, and ends it then. -/
theorem Move.settled {m next : Machine} {events : List Event} (move : m.Move next events) :
    Settled events next.running := by
  cases move with
  | skip | back => exact .of_calm (by simp) _
  | leave | finish => exact .last .stopped
  | fail line fault => exact .append (warned_all (fun _ => rfl) m line) (.last _)
  | run line i next own fetched decoded effect gives =>
    refine .append (warned_all (fun _ => rfl) m line) ?_
    rcases effect.ends with ⟨_, unlike⟩ | ⟨source, rfl, rfl⟩
    · refine .of_calm (gives.all ?_ ?_ ?_ ?_ ?_) _
      · exact fun _ => rfl
      · exact fun _ => rfl
      · exact fun _ _ => rfl
      · exact fun _ => rfl
      · rintro ⟨source, same⟩
        exact absurd same (unlike source)
    · obtain ⟨shown, status, rfl, rest⟩ := exit_last gives
      refine .append ?_ (.last _)
      rcases rest with rfl | ⟨text, dump, rfl⟩ <;> simp [Event.isFinal]

theorem halt_ended {m : Machine} (ended : m.running = false) : m.halt = m := by
  rw [halt, ← ended]

end Machine

namespace Session

/-- A request for an event keeps what was answered and what waits settled. -/
theorem execute_settled {s : Session} {seen : List Event}
    (settled : Settled (seen ++ s.pending) s.machine.running) (budget : Nat) :
    Settled (seen ++ (s.execute budget).event :: (s.execute budget).session.pending)
      (s.execute budget).session.machine.running := by
  have reply := s.execute_reply budget
  generalize s.effort (.execute budget) = steps, (s.execute budget).event = event,
    (s.execute budget).session = next at reply
  -- While the run goes on, nothing of what was answered is final.
  have unended (running : s.machine.running = true) : ∀ event ∈ seen, event.isFinal = false :=
    fun event member => settled.calm running event (List.mem_append_left _ member)
  cases reply with
  | waiting event rest queue =>
    rw [queue] at settled
    exact settled
  | ended clear ended =>
    rw [clear, List.append_nil] at settled
    rw [clear, ended]
    refine ⟨List.pairwise_append.mpr ⟨settled.closing, List.pairwise_singleton .., ?_⟩, ?_⟩
    · intro earlier _ later member _
      exact List.mem_singleton.mp member
    · intro running
      cases running
  | broken clear running => exact .append (unended running) (.last _)
  | silent clear running =>
    rw [clear]
    exact .append (unended running) (.of_calm (by simp [Event.isFinal]) _)
  | spoken k event rest clear running unasked quiet awake loud =>
    have moved := (s.machine.walk k).step_move.settled
    rw [loud, ← Machine.walk_running awake] at moved
    exact .append (unended running) moved

theorem after_settled (m : Machine) (requests : List Request) :
    Settled ((ofMachine m).answers requests ++ ((ofMachine m).after requests).pending)
      ((ofMachine m).after requests).machine.running := by
  induction requests using List.reverseRecOn with
  | nil => exact .of_calm (by simp [answers, after, ofMachine]) _
  | append_singleton requests request ih =>
    rw [answers_append, after_concat]
    cases request with
    | interrupt =>
      simp only [answers, List.append_nil]
      exact ih
    | execute budget =>
      simp only [answers, List.append_assoc, List.singleton_append]
      exact execute_settled ih budget

/-- Nothing that is asked changes a machine whose run has ended. -/
theorem after_ended {s : Session} (ended : s.machine.running = false) (requests : List Request) :
    (s.after requests).machine = s.machine := by
  have still : s.machine.walk (s.taken requests) = s.machine := by
    simpa [Machine.walk] using Machine.walk_ended (n := 0) ended (s.taken requests)
  rcases s.after_machine requests with same | halted
  · rw [same, still]
  · rw [halted, still, Machine.halt_ended ended]

/-- Whatever is asked of a loaded session, at most one answer is an error or an exit, and nothing but
the end comes after it or after an end. Once such an event is raised, also if it still waits, the
machine stays as it is. A line that is carried out raises its complaints first, and then what its
instruction gives or why it fails. -/
theorem answers_settled {source : String} {entry : Option String} {s : Session}
    (loaded : (load source entry).2 = .ok s) (requests : List Request) :
    ((s.answers requests).filter Event.isVerdict).length ≤ 1 ∧
      (s.answers requests).Pairwise
        (fun earlier later => earlier.isFinal = true → later = .stopped) ∧
      (∀ event ∈ s.answers requests ++ (s.after requests).pending, event.isFinal = true →
        ∀ more, (s.after (requests ++ more)).machine = (s.after requests).machine) ∧
      ∀ steps, let m := (s.after requests).machine.walk steps
        m.running = true → ∀ line, m.next? = some line →
          (m.reading line).Raises line m.step.machine m.step.events ∧
            ∀ diagnostic, .warning diagnostic ∈ m.step.events →
              diagnostic.kind = .malformedJson := by
  obtain ⟨_, fresh, _, _⟩ := load_ok loaded
  have settled := after_settled s.machine requests
  rw [← fresh] at settled
  have answered : Settled (s.answers requests) false :=
    ⟨(List.pairwise_append.mp settled.closing).1, fun running => by cases running⟩
  refine ⟨answered.verdicts, answered.closing, ?_, ?_⟩
  · intro event member final more
    have ended : (s.after requests).machine.running = false := by
      by_contra running
      have calm := settled.calm (by simpa using running) event member
      rw [final] at calm
      cases calm
    rw [after_append, after_ended ended]
  · intro steps m running line fetched
    have raises := Machine.step_raises fetched
    exact ⟨raises, fun diagnostic member => raises.warns member⟩

/-- An exit with bad JSON, interrupted while what it shows still waits. -/
theorem answers_settled_exit :
    ∃ s, (load "exit \x7bx\x7d" none).2 = .ok s ∧
      (s.answers [.execute 5, .interrupt, .execute 1, .execute 0, .execute 9, .execute 1]).map
        Event.isFinal = [false, false, false, true, true] ∧
      (s.answers [.execute 5, .interrupt, .execute 1, .execute 0, .execute 9, .execute 1]).Pairwise
        (fun earlier later => earlier.isFinal = true → later = .stopped) ∧
      (∀ more, (s.after ([.execute 5] ++ more)).machine = (s.after [.execute 5]).machine) ∧
      ∃ line, s.machine.next? = some line ∧
        (s.machine.reading line).Raises line s.machine.step.machine s.machine.step.events := by
  obtain ⟨s, loaded, computed⟩ := loaded_with "exit \x7bx\x7d" none
    (fun s =>
      ((s.answers [.execute 5, .interrupt, .execute 1, .execute 0, .execute 9, .execute 1]).map
          Event.isFinal,
        (s.answers [.execute 5] ++ (s.after [.execute 5]).pending).any Event.isFinal,
        s.machine.running, s.machine.next?.isSome))
    ([false, false, false, true, true], true, true, true) (by decide +kernel)
  simp only [Prod.mk.injEq] at computed
  obtain ⟨shape, raised, running, fetched⟩ := computed
  obtain ⟨event, member, final⟩ := List.any_eq_true.mp raised
  obtain ⟨line, next⟩ := Option.isSome_iff_exists.mp fetched
  exact ⟨s, loaded, shape, (answers_settled loaded _).2.1,
    (answers_settled loaded [.execute 5]).2.2.1 event member final,
    line, next, ((answers_settled loaded []).2.2.2 0 running line next).1⟩

end Session

end RegisterMachine
