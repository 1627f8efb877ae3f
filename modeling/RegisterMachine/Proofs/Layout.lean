import RegisterMachine.Proofs.Lockstep
import RegisterMachine.Proofs.Placement
import RegisterMachine.Proofs.Stripping

/-!
Layout is for readers only. What a text keeps of its lines once comments and outer blanks are gone is
all that matters to a run, and of its calls not even the arguments: texts that keep the same compile to
the same tables or are refused for the same reason, and their machines go abreast for ever
(`Session.layout_unseen`). So a text runs as its normal form does.
-/

namespace RegisterMachine

namespace Words

/-- Lines that do the same: they say the same, or call the same function. -/
inductive Akin : List Char → List Char → Prop
  | same (text : List Char) : Akin text text
  | call {a b command function : List Char} {arguments arguments' : List (List Char)}
      (calls : command = "call".toList ∨ command = "async".toList)
      (first : split a = command :: function :: arguments)
      (second : split b = command :: function :: arguments') : Akin a b

end Words

/-- How runs correspond that differ in where lines stand and in what calls are handed. -/
def Likeness.layout : Likeness where
  offset := 0
  numbers _ _ := True
  parameters _ _ := True
  parameters_refl _ := trivial
  origin := none

theorem Line.Holds.like {l l' : Line} {a b : List Char} (holds : l.Holds a) (holds' : l'.Holds b)
    (akin : Words.Akin a b) : l.Like .layout l' := by
  have words := holds.words
  have words' := holds'.words
  cases akin with
  | same =>
    obtain ⟨command, operands⟩ := List.cons.inj (words'.trans words.symm)
    exact ⟨trivial, command, .inl ⟨holds'.text.trans holds.text.symm, operands⟩⟩
  | call calls first second =>
    rw [first, List.map_cons, List.map_cons] at words
    rw [second, List.map_cons, List.map_cons] at words'
    obtain ⟨command, operands⟩ := List.cons.inj words
    obtain ⟨command', operands'⟩ := List.cons.inj words'
    refine ⟨trivial, command'.trans command.symm, .inr ⟨?_, _, _, _, operands, operands', trivial⟩⟩
    rw [command]
    rcases calls with rfl | rfl
    · exact .inl (by decide)
    · exact .inr (by decide)

namespace Listing

theorem like_of_holds {ls ls' : List Line} {texts texts' : List (List Char)}
    (akin : List.Forall₂ Words.Akin texts texts') (holds : List.Forall₂ Line.Holds ls texts)
    (holds' : List.Forall₂ Line.Holds ls' texts') : List.Forall₂ (Line.Like .layout) ls ls' := by
  induction akin generalizing ls ls' with
  | nil =>
    cases holds
    cases holds'
    exact .nil
  | cons first _ ih =>
    cases holds with
    | cons holds rest =>
      cases holds' with
      | cons holds' rest' => exact .cons (holds.like holds' first) (ih rest rest')

theorem ofSource_like {source source' : String}
    (akin : List.Forall₂ Words.Akin (Words.kept source.toList) (Words.kept source'.toList)) :
    List.Forall₂ (Line.Like .layout) (ofSource source) (ofSource source') :=
  like_of_holds akin (ofLines_holds 1 _) (ofLines_holds 1 _)

end Listing

/-- The diagnostic without the line that it names. -/
def Diagnostic.bare (d : Diagnostic) : Diagnostic := { d with line := none }

/-- The call without the line that it was made from and what it was handed. -/
def Frame.bare (f : Frame) : Frame := { f with callingLine := 0, parameters := [] }

/-- The event without line numbers and what calls were handed. -/
def Event.bare : Event → Event
  | .inspect (.frames calls) => .inspect (.frames (calls.map Frame.bare))
  | .warning d => .warning d.bare
  | .error d => .error d.bare
  | .launch function _ => .launch function 0
  | event => event

theorem Diagnostic.Like.bare_eq {d d' : Diagnostic} (alike : d.Like .layout d') :
    d'.bare = d.bare := by
  simp only [Diagnostic.bare, alike.kind, alike.message]

theorem Frame.Like.bare_eq {f f' : Frame} (alike : f.Like .layout f') : f'.bare = f.bare := by
  have returns : f'.returnTo = f.returnTo := by simp [alike.returnTo, Likeness.layout]
  have closes : f'.close = f.close := alike.close
  simp only [Frame.bare, alike.function, returns, closes]

theorem Frame.bare_frames {calls calls' : List Frame}
    (alike : List.Forall₂ (Frame.Like .layout) calls calls') :
    calls'.map Frame.bare = calls.map Frame.bare := by
  induction alike with
  | nil => rfl
  | cons first _ ih => rw [List.map_cons, List.map_cons, first.bare_eq, ih]

/-- Events that correspond are equal but for line numbers and arguments, if the traces are. -/
theorem Event.Like.bare_eq {trace : String} {e e' : Event} (alike : Event.Like .layout trace trace e e') :
    e'.bare = e.bare := by
  cases alike with
  | stopped | running | print | trace | value | registers | launch | sleep | exit => rfl
  | frames calls => exact congrArg (fun calls => inspect (.frames calls)) (Frame.bare_frames calls)
  | warning diagnostics => exact congrArg Event.warning diagnostics.bare_eq
  | error diagnostics => exact congrArg Event.error diagnostics.bare_eq

theorem Event.bare_events {trace : String} {es es' : List Event}
    (alike : List.Forall₂ (Event.Like .layout trace trace) es es') :
    es'.map Event.bare = es.map Event.bare := by
  induction alike with
  | nil => rfl
  | cons first _ ih => rw [List.map_cons, List.map_cons, first.bare_eq, ih]

namespace Machine

/-- Two machines that hold the same and stand at the same place, with calls of the same functions. What
their next steps raise is equal but for line numbers and arguments, unless both print the trace of
their calls. -/
structure Abreast (m m' : Machine) : Prop where
  bank : m'.bank = m.bank
  pc : m'.pc = m.pc
  detour : m'.detour = m.detour
  running : m'.running = m.running
  frames : m'.stack.items.map Frame.bare = m.stack.items.map Frame.bare
  events : ¬ m.Traces → m'.emits.map Event.bare = m.emits.map Event.bare
  traced : m.running = true → m.Traces →
    m.emits = [.print m.trace] ∧ m'.emits = [.print m'.trace]

theorem layout_steady (m : Machine) : m.Steady .layout := ⟨.inr rfl, .inl rfl⟩

theorem Traces.events {m : Machine} (shows : m.Traces) : m.step.events = [.print m.trace] := by
  obtain ⟨line, fetched, decoded⟩ := shows
  rw [step_next fetched]
  simp only [dispatch, attempt, decoded, perform, Attempt.result_pure]
  rfl

/-- Machines that are alike show their traces in the same steps. -/
theorem Like.traces {m m' : Machine} (alike : m.Like .layout m') (shows : m.Traces) : m'.Traces := by
  obtain ⟨line, fetched, decoded⟩ := shows
  have lines := alike.next? m.layout_steady.placed
  rw [fetched] at lines
  generalize fetched' : m'.next? = next at lines
  cases lines with
  | @some _ line' same =>
    have instructions := same.decode
    rw [decoded] at instructions
    generalize decoded' : Instruction.decode line' = result at instructions
    cases instructions with
    | ok like =>
      cases like
      exact ⟨line', fetched', decoded'⟩

theorem Like.abreast {m m' : Machine} (alike : m.Like .layout m') : Abreast m m' where
  bank := alike.bank
  pc := alike.pc
  detour := by simp [alike.detour, Likeness.layout]
  running := alike.running
  frames := Frame.bare_frames alike.frames
  events quiet := by
    unfold emits
    rw [alike.running]
    split
    · have next : Outcome.Like .layout "" "" m.step m'.step :=
        alike.step_traced m.layout_steady fun shows => absurd shows quiet
      exact Event.bare_events next.events
    · rfl
  traced running shows := by
    have shows' := alike.traces shows
    simp [emits, alike.running, running, shows.events, shows'.events]

theorem Like.walk_abreast {m m' : Machine} (alike : m.Like .layout m') (n : Nat) :
    Abreast (m.walk n) (m'.walk n) :=
  (alike.walk fun i _ _ => (m.walk i).layout_steady).abreast

/-- Programs that are alike start alike, at their first lines and in the same functions. -/
theorem start_like {p p' : Program} (alike : p.Like .layout p') : (start p).Like .layout (start p') :=
  ⟨alike, rfl, rfl, rfl, .nil, rfl, rfl, rfl⟩

theorem startAt_like {p p' : Program} (alike : p.Like .layout p') (function : String) :
    Agree Eq (Machine.Like .layout) (startAt p function).result (startAt p' function).result := by
  unfold startAt
  rw [alike.function?]
  cases p.function? function with
  | none => exact .error rfl
  | some region => exact ((start_like alike).enter region trivial trivial rfl).result

end Machine

namespace Session

/-- Runs of two texts that cannot be told apart but by line numbers and arguments. -/
structure Unseen (source source' : String) : Prop where
  compiled : Agree (fun d d' => d'.bare = d.bare)
    (fun p p' => p'.labels = p.labels ∧ p'.regions = p.regions ∧
      ∀ address, p'.owner? address = p.owner? address)
    (Program.compile (Listing.ofSource source)).2 (Program.compile (Listing.ofSource source')).2
  runs : ∀ entry, Agree (fun d d' => d'.bare = d.bare)
    (fun s s' => ∀ n, (s.machine.walk n).Abreast (s'.machine.walk n))
    (load source entry).2 (load source' entry).2

theorem load_like {source source' : String}
    (alike : Agree (Diagnostic.Like .layout) (Program.Like .layout)
      (Program.compile (Listing.ofSource source)).2 (Program.compile (Listing.ofSource source')).2)
    (entry : Option String) :
    Agree (Diagnostic.Like .layout) (fun s s' => s.machine.Like .layout s'.machine)
      (load source entry).2 (load source' entry).2 := by
  unfold load
  generalize Program.compile (Listing.ofSource source) = x at alike
  generalize Program.compile (Listing.ofSource source') = y at alike
  obtain ⟨notes, result⟩ := x
  obtain ⟨notes', result'⟩ := y
  cases alike with
  | error same => exact .error same
  | @ok p p' same =>
    cases entry with
    | none => exact .ok (Machine.start_like same)
    | some function =>
      have started := Machine.startAt_like same function
      dsimp only
      generalize (Machine.startAt p function).result = x at started
      generalize (Machine.startAt p' function).result = y at started
      cases started with
      | ok machines => exact .ok machines
      | error equal =>
        subst equal
        exact .error (Fault.report_like _ .none)

theorem unseen_of_akin {source source' : String}
    (akin : List.Forall₂ Words.Akin (Words.kept source.toList) (Words.kept source'.toList)) :
    Unseen source source' := by
  have alike := Program.compile_like (Listing.ofSource_like akin) [] rfl (by simp)
  refine ⟨alike.imp (fun _ _ same => same.bare_eq) fun p p' same => ?_, fun entry => ?_⟩
  · have unmoved : Region.shift Likeness.layout.offset = id := rfl
    refine ⟨by simp [same.labels, Likeness.layout], ?_, fun address => ?_⟩
    · rw [same.regions, unmoved, List.map_id]
    · have owner := same.owner? address
      rwa [unmoved, Option.map_id] at owner
  · exact (load_like alike entry).imp (fun _ _ same => same.bare_eq)
      fun _ _ machines n => machines.walk_abreast n

/-- Texts that keep the same lines, up to what calls are handed, cannot be told apart, and neither can a
text and its normal form. -/
theorem layout_unseen (source : String) :
    (∀ source', List.Forall₂ Words.Akin (Words.kept source.toList) (Words.kept source'.toList) →
      Unseen source source') ∧
    Unseen source (String.ofList (Words.normal source.toList)) := by
  refine ⟨fun source' akin => unseen_of_akin akin, unseen_of_akin ?_⟩
  rw [String.toList_ofList, Words.kept_normal, List.forall₂_same]
  exact fun text _ => .same text

/-- The calls that the machines are in differ in where they were made and what they were handed. -/
theorem layout_unseen_arguments :
    let source := "call f 1 2\nfunction f\nprintstacktrace\nendfunction"
    let source' := "# once\n\n  call   f  \"x y\" ; here\n\tfunction f\r\nprintstacktrace\n endfunction ;"
    ∃ s s', (load source none).2 = .ok s ∧ (load source' none).2 = .ok s' ∧
      (s.machine.walk 1).stack.items = [⟨"f", 1, ["1", "2"], 4, some 2⟩] ∧
      (s'.machine.walk 1).stack.items = [⟨"f", 3, ["\"x y\""], 4, some 2⟩] ∧
      ∀ n, (s.machine.walk n).Abreast (s'.machine.walk n) := by
  intro source source'
  have texts : Words.kept source.toList =
      ["call f 1 2", "function f", "printstacktrace", "endfunction"].map String.toList := by
    decide +kernel
  have texts' : Words.kept source'.toList =
      ["call   f  \"x y\"", "function f", "printstacktrace", "endfunction"].map String.toList := by
    decide +kernel
  have akin : List.Forall₂ Words.Akin (Words.kept source.toList) (Words.kept source'.toList) := by
    rw [texts, texts']
    have first : Words.split "call f 1 2".toList = ["call", "f", "1", "2"].map String.toList := by
      decide +kernel
    have second : Words.split "call   f  \"x y\"".toList =
        ["call", "f", "\"x y\""].map String.toList := by
      decide +kernel
    exact .cons (.call (.inl rfl) first second)
      (.cons (.same _) (.cons (.same _) (.cons (.same _) .nil)))
  obtain ⟨s, loaded, calls⟩ := loaded_with source none (fun s => (s.machine.walk 1).stack.items)
    [⟨"f", 1, ["1", "2"], 4, some 2⟩] (by decide +kernel)
  obtain ⟨s', loaded', calls'⟩ := loaded_with source' none (fun s => (s.machine.walk 1).stack.items)
    [⟨"f", 3, ["\"x y\""], 4, some 2⟩] (by decide +kernel)
  have runs := ((layout_unseen source).1 source' akin).runs none
  rw [loaded, loaded'] at runs
  cases runs with
  | ok abreast => exact ⟨s, s', loaded, loaded', calls, calls', abreast⟩

end Session

end RegisterMachine
