import RegisterMachine.Proofs.Moves

/-!
What a line raises when it is carried out. Its operands are read in order, and each object in JSON that
cannot be read is complained of. The complaints come first, and after them what the instruction gives
or the fault that it fails with (`step_raises`).
-/

namespace RegisterMachine

namespace Operand

/-- The warning that an operand is read with: it looks like an object in JSON and is none. -/
def complaint? (source : String) : Option Fault :=
  if isBraced source.toList then
    match Json.parse source.toList with
    | .ok _ => none
    | .error failure => some (.badJson (failure.message source.toList) source)
  else none

theorem complaint?_kind {source : String} {fault : Fault} (complaint : complaint? source = some fault) :
    fault.kind = .malformedJson := by
  unfold complaint? at complaint
  split at complaint
  · split at complaint <;> cases complaint
    rfl
  · cases complaint

/-- A text in braces is neither quoted, nor a number, nor a truth value. -/
theorem braced_only {source : String} (braced : isBraced source.toList = true) :
    unquote? source.toList = none ∧ Number.read? source = none ∧ source ≠ "true" ∧
      source ≠ "false" := by
  have first : source.toList.head? = some '\x7b' := by
    simp only [isBraced, Bool.and_eq_true, decide_eq_true_eq] at braced
    exact braced.1
  obtain ⟨rest, text⟩ := List.head?_eq_some_iff.mp first
  have unquoted : unquote? source.toList = none := by
    rw [text]
    rfl
  have unnumbered : Number.read? source = none := by
    rw [Number.read?, text]
    rfl
  have untrue : source ≠ "true" := by
    rintro rfl
    cases first
  have unfalse : source ≠ "false" := by
    rintro rfl
    cases first
  exact ⟨unquoted, unnumbered, untrue, unfalse⟩

theorem resolve_warnings (source : String) (bank : Bank) :
    (resolve source bank).warnings = (complaint? source).toList := by
  cases braced : isBraced source.toList with
  | true =>
    obtain ⟨unquoted, unnumbered, untrue, unfalse⟩ := braced_only braced
    simp only [resolve, complaint?, unquoted, unnumbered, if_neg untrue, if_neg unfalse, if_pos braced]
    cases parsed : Json.parse source.toList <;> rfl
  | false =>
    simp only [complaint?, braced, resolve, Bool.false_eq_true, if_false, Option.toList_none]
    repeat' split
    all_goals rfl

end Operand

/-- The operands of an instruction that stand for values, in order. -/
def Instruction.sources : Instruction → List String
  | .move _ source | .print source _ | .dumpValue source | .sleep source | .exit (some source) =>
    [source]
  | .compare left right _ | .compute _ left right _ => [left, right]
  | _ => []

namespace Attempt

variable {α β : Type}

/-- The attempt reads the sources in order, all of them unless it fails, and warns of nothing else. -/
def Reads (x : Attempt α) (sources : List String) : Prop :=
  ∃ read, read <+: sources ∧ x.warnings = read.filterMap Operand.complaint? ∧
    ∀ a, x.result = .ok a → read = sources

theorem reads_nil {x : Attempt α} (silent : x.warnings = []) : x.Reads [] :=
  ⟨[], List.prefix_rfl, silent, fun _ _ => rfl⟩

theorem reads_resolve (source : String) (bank : Bank) :
    (Operand.resolve source bank).Reads [source] := by
  refine ⟨[source], List.prefix_rfl, ?_, fun _ _ => rfl⟩
  rw [Operand.resolve_warnings]
  cases complaint : Operand.complaint? source <;> simp [complaint]

theorem Reads.bind {x : Attempt α} {f : α → Attempt β} {first last : List String}
    (reads : x.Reads first) (next : ∀ a, (f a).Reads last) : (x >>= f).Reads (first ++ last) := by
  obtain ⟨read, begins, warnings, whole⟩ := reads
  rcases x with ⟨notes, warned, result⟩
  cases result with
  | error fault =>
    refine ⟨read, begins.trans (List.prefix_append first last), warnings, ?_⟩
    intro b done
    cases done
  | ok a =>
    obtain ⟨more, follows, warnings', whole'⟩ := next a
    refine ⟨first ++ more, (List.prefix_append_right_inj first).mpr follows, ?_, ?_⟩
    · change warned ++ (f a).warnings = _
      rw [List.filterMap_append, ← whole a rfl, ← warnings, warnings']
    · intro b done
      rw [whole' b done]

end Attempt

namespace Machine

theorem target_silent (m : Machine) (label : String) : (m.target label).warnings = [] := by
  unfold target
  split <;> rfl

theorem jump_silent (m : Machine) (address : Nat) : (m.jump address).warnings = [] := by
  unfold jump
  split <;> rfl

/-- An instruction reads its sources, and warns of nothing else. -/
theorem perform_reads (m : Machine) (line : Line) (i : Instruction) :
    (m.perform line i).Reads i.sources := by
  have silent {α : Type} {x : Attempt α} := @Attempt.reads_nil α x
  cases i with
  | move target source =>
    exact (silent rfl).bind fun _ => (Attempt.reads_resolve source m.bank).bind fun _ =>
      (silent rfl).bind fun _ => silent rfl
  | create => exact (silent rfl).bind fun _ => silent rfl
  | erase | dumpBank | dumpFrames | traceFrames | mark => exact silent rfl
  | compare left right target =>
    exact (Attempt.reads_resolve left m.bank).bind fun _ =>
      (Attempt.reads_resolve right m.bank).bind fun _ =>
        (silent rfl).bind fun _ => (silent rfl).bind fun _ => silent rfl
  | compute op left right target =>
    exact (Attempt.reads_resolve left m.bank).bind fun _ =>
      (Attempt.reads_resolve right m.bank).bind fun _ =>
        (silent rfl).bind fun _ => (silent rfl).bind fun _ => (silent rfl).bind fun _ => silent rfl
  | count =>
    exact (silent rfl).bind fun _ => (silent rfl).bind fun _ => (silent rfl).bind fun _ => silent rfl
  | reverse => exact (silent rfl).bind fun _ => (silent rfl).bind fun _ => silent rfl
  | print source | dumpValue source =>
    exact (Attempt.reads_resolve source m.bank).bind fun _ => silent rfl
  | jump label =>
    exact (silent (m.target_silent label)).bind fun address =>
      (silent (m.jump_silent address)).bind fun _ => silent rfl
  | jumpIf label register =>
    refine (silent (m.target_silent label)).bind fun address => (silent rfl).bind fun condition => ?_
    split
    · exact (silent (m.jump_silent address)).bind fun _ => silent rfl
    · exact silent rfl
  | call name arguments =>
    exact (silent rfl).bind fun region =>
      ((silent rfl).bind fun _ => (silent rfl).bind fun _ => silent rfl).bind fun _ => silent rfl
  | launch => exact (silent rfl).bind fun _ => (silent rfl).bind fun _ => silent rfl
  | sleep source =>
    refine (Attempt.reads_resolve source m.bank).bind fun value => ?_
    split <;> exact silent rfl
  | exit source =>
    cases source with
    | none => exact silent rfl
    | some source => exact (Attempt.reads_resolve source m.bank).bind fun _ => silent rfl

end Machine

/-- The warnings of a line whose sources were read. -/
def Line.complaints (line : Line) (read : List String) : List Event :=
  (read.filterMap Operand.complaint?).map fun fault => .warning (fault.report (some line.number))

theorem Line.complaints_kind {line : Line} {read : List String} {event : Event}
    (member : event ∈ line.complaints read) :
    ∃ diagnostic, event = .warning diagnostic ∧ diagnostic.kind = .malformedJson := by
  obtain ⟨fault, among, rfl⟩ := List.mem_map.mp member
  obtain ⟨source, _, complaint⟩ := List.mem_filterMap.mp among
  exact ⟨_, rfl, Operand.complaint?_kind complaint⟩

namespace Machine

/-- How a line that is carried out ends, and what it raises. It is refused as it stands, or it raises
the complaints of what it reads, and after them what its instruction gives or why it fails. -/
inductive Raises (m : Machine) (line : Line) : Machine → List Event → Prop
  | refused (fault : Fault) (undecoded : Instruction.decode line = .error fault) :
      Raises m line m.halt [.error (fault.report (some line.number))]
  | failed (i : Instruction) (fault : Fault) (read : List String)
      (decoded : Instruction.decode line = .ok i)
      (performed : (m.perform line i).result = .error fault) (begins : read <+: i.sources) :
      Raises m line m.halt (line.complaints read ++ [.error (fault.report (some line.number))])
  | done (i : Instruction) (next : Machine) (own : List Event)
      (decoded : Instruction.decode line = .ok i)
      (performed : (m.perform line i).result = .ok (next, own)) (gives : i.Gives own) :
      Raises m line next (line.complaints i.sources ++ own)

/-- A line raises its complaints first. -/
theorem step_raises {m : Machine} {line : Line} (fetched : m.next? = some line) :
    (m.reading line).Raises line m.step.machine m.step.events := by
  rw [step_next fetched]
  cases decoded : Instruction.decode line with
  | error fault =>
    have outcome : (m.reading line).dispatch line =
        ⟨(m.reading line).halt, [.error (fault.report (some line.number))], []⟩ := by
      simp [dispatch, attempt, decoded, Attempt.fail]
    rw [outcome]
    exact .refused fault decoded
  | ok i =>
    obtain ⟨read, begins, warnings, whole⟩ := (m.reading line).perform_reads line i
    rcases performed : (m.reading line).perform line i with ⟨notes, warned, result⟩
    rw [performed] at warnings whole
    simp only at warnings whole
    cases result with
    | error fault =>
      have outcome : (m.reading line).dispatch line =
          ⟨(m.reading line).halt,
            line.complaints read ++ [.error (fault.report (some line.number))], notes⟩ := by
        simp [dispatch, attempt, decoded, performed, warnings, Line.complaints]
      rw [outcome]
      exact .failed i fault read decoded (congrArg Attempt.result performed) begins
    | ok outcome =>
      obtain ⟨next, own⟩ := outcome
      rw [whole _ rfl] at warnings
      have outcome : (m.reading line).dispatch line =
          ⟨next, line.complaints i.sources ++ own, notes⟩ := by
        simp [dispatch, attempt, decoded, performed, warnings, Line.complaints]
      have finished := congrArg Attempt.result performed
      rw [outcome]
      exact .done i next own decoded finished (perform_effect finished).2

/-- All that a line warns of is bad JSON. -/
theorem Raises.warns {m next : Machine} {line : Line} {events : List Event}
    (raises : m.Raises line next events) {diagnostic : Diagnostic}
    (member : .warning diagnostic ∈ events) : diagnostic.kind = .malformedJson := by
  have complained {read : List String} (among : .warning diagnostic ∈ line.complaints read) :
      diagnostic.kind = .malformedJson := by
    obtain ⟨_, same, kind⟩ := Line.complaints_kind among
    cases same
    exact kind
  cases raises with
  | refused => simp at member
  | failed i fault read =>
    rcases List.mem_append.mp member with among | own
    · exact complained among
    · simp at own
  | done i next own decoded performed gives =>
    rcases List.mem_append.mp member with among | among
    · exact complained among
    · have other := gives.all (P := fun event => event ≠ .warning diagnostic) (by simp) (by simp)
        (by simp) (by simp) (by simp)
      exact absurd rfl (other _ among)

end Machine

end RegisterMachine
