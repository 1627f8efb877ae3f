import RegisterMachine.Proofs.Batches
import RegisterMachine.Proofs.Stripping
import RegisterMachine.Proofs.Warnings

/-!
The lines that diagnostics and calls name. A line that is carried out stands in the file where its number
says (`Listing.Located`), and every diagnostic that it raises names it, whenever the session shows it; an
interrupt names the line that was carried out last, and every active call the line that made it
(`Session.lines_cited`).
-/

namespace RegisterMachine

/-- Where the executable line at an address stands in its file: its number counts all lines, and the
address those of which something is left. -/
structure Listing.Located (source : String) (address : Nat) (line : Line) : Prop where
  counted : 0 < line.number
  read : ∃ raw, (Text.lines source.toList)[line.number - 1]? = some raw ∧
    Line.read? line.number (String.ofList raw) = some line
  address : ((Text.lines source.toList).take line.number).countP
    (fun raw => (Words.stripComment raw).isSome) = address

namespace Listing

theorem ofLines_located {first i : Nat} {ls : List (List Char)} {line : Line}
    (found : (ofLines first ls)[i]? = some line) :
    ∃ k, line.number = first + k ∧
      (∃ raw, ls[k]? = some raw ∧ Line.read? line.number (String.ofList raw) = some line) ∧
      (ls.take (k + 1)).countP (fun raw => (Words.stripComment raw).isSome) = i + 1 := by
  induction ls generalizing first i with
  | nil => cases found
  | cons raw ls ih =>
    cases left : Words.stripComment raw with
    | none =>
      rw [ofLines, Line.read?_none left] at found
      obtain ⟨k, number, text, count⟩ := ih found
      refine ⟨k + 1, by omega, text, ?_⟩
      rw [List.take_succ_cons, List.countP_cons_of_neg (by simp [left]), count]
    | some text =>
      obtain ⟨l, read, number, _⟩ := Line.read?_left left first
      rw [ofLines, read] at found
      cases i with
      | zero =>
        cases found
        refine ⟨0, number, ⟨raw, rfl, number ▸ read⟩, ?_⟩
        simp [left]
      | succ i =>
        obtain ⟨k, number, text, count⟩ := ih found
        refine ⟨k + 1, by omega, text, ?_⟩
        rw [List.take_succ_cons, List.countP_cons_of_pos (by simp [left]), count]

theorem located {source : String} {address : Nat} {line : Line}
    (found : line? (ofSource source) address = some line) : Located source address line := by
  have counted := (line?_bound found).1
  unfold line? at found
  rw [if_neg (by omega)] at found
  obtain ⟨k, number, text, count⟩ := ofLines_located found
  have place : line.number - 1 = k := by omega
  have total : line.number = k + 1 := by omega
  refine ⟨by omega, place ▸ text, ?_⟩
  rw [total, count]
  omega

end Listing

namespace Machine

/-- Only a function that the program has is launched, under its own name and by the line. -/
theorem perform_launch {m next : Machine} {line : Line} {i : Instruction} {own : List Event}
    {function : String} {number : Nat} (performed : (m.perform line i).result = .ok (next, own))
    (member : .launch function number ∈ own) :
    i = .launch function ∧ number = line.number ∧
      ∃ region, m.program.function? function = some region := by
  have gives := (perform_effect performed).2
  cases i with
  | launch name =>
    simp only [perform, Attempt.bind_ok, Attempt.result_lift, Attempt.result_pure,
      Attempt.result_note] at performed
    obtain ⟨region, found, _, _, same⟩ := performed
    cases same
    have known := function_ok found
    obtain ⟨_, rfl⟩ := Program.mem_of_function? known
    cases List.mem_singleton.mp member
    exact ⟨rfl, rfl, region, known⟩
  | move | create | erase | compare | compute | count | reverse | mark | jump | jumpIf | call =>
    rw [show own = [] from gives] at member
    cases member
  | print | traceFrames | dumpBank | dumpValue | dumpFrames | sleep =>
    obtain ⟨_, rfl⟩ := gives
    simp at member
  | exit source =>
    obtain ⟨shown, status, rfl, shape⟩ := exit_last gives
    rcases shape with rfl | ⟨text, dump, rfl⟩ <;> simp at member

/-- A step that carries out no line raises nothing but the end. -/
theorem step_lineless {m : Machine} (fetched : m.next? = none) :
    ∀ event ∈ m.step.events, event = .stopped := by
  have move := m.step_move
  generalize m.step.events = events, m.step.machine = next at move
  cases move with
  | skip | back => simp
  | leave | finish => simp
  | fail line fault found | run line i next own found =>
    rw [fetched] at found
    cases found

/-- Every diagnostic of a line names it. -/
theorem Raises.names {m next : Machine} {line : Line} {events : List Event}
    (raises : m.Raises line next events) {event : Event} (member : event ∈ events)
    {diagnostic : Diagnostic} (reports : event = .warning diagnostic ∨ event = .error diagnostic) :
    diagnostic.line = some line.number := by
  have complained {read : List String} (among : event ∈ line.complaints read) :
      diagnostic.line = some line.number := by
    obtain ⟨fault, _, rfl⟩ := List.mem_map.mp among
    rcases reports with same | same <;> cases same
    rfl
  have failed {fault : Fault} (same : event = .error (fault.report (some line.number))) :
      diagnostic.line = some line.number := by
    subst same
    rcases reports with same | same <;> cases same
    rfl
  cases raises with
  | refused fault => exact failed (List.mem_singleton.mp member)
  | failed i fault read =>
    rcases List.mem_append.mp member with among | own
    · exact complained among
    · exact failed (List.mem_singleton.mp own)
  | done i next own decoded performed gives =>
    rcases List.mem_append.mp member with among | among
    · exact complained among
    · have other := gives.all
        (P := fun event => event ≠ .warning diagnostic ∧ event ≠ .error diagnostic)
        (by simp) (by simp) (by simp) (by simp) (by simp) event among
      rcases reports with same | same
      · exact absurd same other.1
      · exact absurd same other.2

/-- A launch is made by a line for it, which it names. -/
theorem step_launch {m : Machine} {function : String} {number : Nat}
    (raised : .launch function number ∈ m.step.events) :
    ∃ line region, m.next? = some line ∧ Instruction.decode line = .ok (.launch function) ∧
      number = line.number ∧ m.program.function? function = some region := by
  cases fetched : m.next? with
  | none => cases step_lineless fetched _ raised
  | some line =>
    have raises := step_raises fetched
    generalize m.step.events = events, m.step.machine = next at raises raised
    have quiet (read : List String) : .launch function number ∉ line.complaints read := by
      intro member
      obtain ⟨_, same, _⟩ := Line.complaints_kind member
      cases same
    cases raises with
    | refused => simp at raised
    | failed i fault read =>
      rcases List.mem_append.mp raised with among | among
      · exact absurd among (quiet read)
      · simp at among
    | done i next own decoded performed =>
      rcases List.mem_append.mp raised with among | among
      · exact absurd among (quiet _)
      · obtain ⟨rfl, same, region, known⟩ := perform_launch performed among
        exact ⟨line, region, rfl, decoded, same, known⟩

end Machine

/-- The event names the line that raised it, if it names any. -/
def Event.Cites (origin : Option Line) : Event → Prop
  | .warning diagnostic | .error diagnostic =>
    ∃ line, origin = some line ∧ diagnostic.line = some line.number
  | .launch function number =>
    ∃ line, origin = some line ∧ number = line.number ∧
      Opcode.ofCommand? line.command = some .async ∧ line.operands.head? = some function
  | _ => True

namespace Machine

/-- Every event of a step names the line that the step carries out, if it names any. -/
theorem step_cites (m : Machine) : ∀ event ∈ m.step.events, event.Cites m.next? := by
  intro event member
  have reported {diagnostic : Diagnostic}
      (reports : event = .warning diagnostic ∨ event = .error diagnostic) :
      ∃ line, m.next? = some line ∧ diagnostic.line = some line.number := by
    cases fetched : m.next? with
    | none =>
      rw [step_lineless fetched event member] at reports
      rcases reports with same | same <;> cases same
    | some line => exact ⟨line, rfl, (step_raises fetched).names member reports⟩
  cases event with
  | warning diagnostic => exact reported (.inl rfl)
  | error diagnostic => exact reported (.inr rfl)
  | launch function number =>
    obtain ⟨line, _, fetched, decoded, same, _⟩ := step_launch member
    exact ⟨line, fetched, same, Instruction.decode_written decoded⟩
  | stopped | running | print | inspect | sleep | exit => exact trivial

/-- What a number of steps raise, each event with the line that its step carried out. -/
def log (m : Machine) : Nat → List (Option Line × Event)
  | 0 => []
  | n + 1 => m.log n ++ (m.walk n).emits.map fun event => ((m.walk n).next?, event)

theorem log_raised (m : Machine) (n : Nat) : (m.log n).map Prod.snd = m.raised n := by
  induction n with
  | zero => rfl
  | succ n ih => simp [log, raised, ih, Function.comp_def]

theorem mem_log {m : Machine} {n : Nat} {origin : Option Line} {event : Event}
    (member : (origin, event) ∈ m.log n) :
    ∃ i, i < n ∧ (m.walk i).next? = origin ∧ event ∈ (m.walk i).emits := by
  induction n with
  | zero => cases member
  | succ n ih =>
    rcases List.mem_append.mp member with earlier | last
    · obtain ⟨i, before, found⟩ := ih earlier
      exact ⟨i, Nat.lt_succ_of_lt before, found⟩
    · obtain ⟨_, raised, same⟩ := List.mem_map.mp last
      cases same
      exact ⟨n, Nat.lt_succ_self n, rfl, raised⟩

theorem emits_cites {m : Machine} {event : Event} (raised : event ∈ m.emits) : event.Cites m.next? := by
  unfold emits at raised
  split at raised
  · exact m.step_cites event raised
  · cases raised

/-- The line that was carried out last in a number of steps. -/
def last? (m : Machine) : Nat → Option Line
  | 0 => none
  | n + 1 => if (m.walk n).running then (m.walk n).next?.or (m.last? n) else m.last? n

/-- The line that a machine is at changes only when one is carried out. -/
theorem Move.line {m next : Machine} {events : List Event} (move : m.Move next events) :
    next.line = (m.next?.map Line.number).or m.line := by
  cases move with
  | skip region idle inside =>
    have none : m.next? = none := by simp [next?, Stack.top?, idle, inside]
    simp [none]
  | back frame stack address popped reached | leave frame stack popped reached =>
    have none : m.next? = none := by
      simp [next?, Stack.top?, (Stack.pop?_some popped).2.2, reached]
    simp [none]
  | finish gone =>
    cases fetched : m.next? with
    | none => rfl
    | some line =>
      rw [next?_line fetched] at gone
      cases gone
  | fail line fault fetched =>
    rw [fetched]
    rfl
  | run line i next own fetched decoded effect gives =>
    rw [fetched]
    cases effect <;> rfl

theorem walk_line {m : Machine} (fresh : m.line = none) (n : Nat) :
    (m.walk n).line = (m.last? n).map Line.number := by
  induction n with
  | zero => exact fresh
  | succ n ih =>
    simp only [walk, last?]
    split
    · rw [(m.walk n).step_move.line, ih]
      cases (m.walk n).next? <;> rfl
    · exact ih

/-- How a call came to be active, with the calls below it: the run started with it, or a line made
it. It names that line, and has been active since. -/
inductive Pushed (m : Machine) (n : Nat) (frame : Frame) (below : List Frame) : Prop
  | entry (first : m.stack.items = [frame]) (lowest : below = []) (unmade : frame.callingLine = 0)
      (bare : frame.parameters = [])
      (stays : ∀ j, j ≤ n → frame :: below <:+ (m.walk j).stack.items)
  | call (i : Nat) (line : Line) (earlier : i < n) (fetched : (m.walk i).next? = some line)
      (opcode : Opcode.ofCommand? line.command = some .call)
      (number : frame.callingLine = line.number)
      (operands : line.operands = frame.function :: frame.parameters)
      (before : (m.walk i).stack.items = below)
      (made : (m.walk (i + 1)).stack.items = frame :: below)
      (stays : ∀ j, i < j → j ≤ n → frame :: below <:+ (m.walk j).stack.items)

theorem Pushed.later {m : Machine} {n : Nat} {frame : Frame} {below : List Frame}
    (pushed : m.Pushed n frame below) (still : frame :: below <:+ (m.walk (n + 1)).stack.items) :
    m.Pushed (n + 1) frame below := by
  cases pushed with
  | entry first lowest unmade bare stays =>
    refine .entry first lowest unmade bare fun j bound => ?_
    by_cases old : j ≤ n
    · exact stays j old
    · rw [show j = n + 1 by omega]
      exact still
  | call i line earlier fetched opcode number operands before made stays =>
    refine .call i line (by omega) fetched opcode number operands before made fun j after bound => ?_
    by_cases old : j ≤ n
    · exact stays j after old
    · rw [show j = n + 1 by omega]
      exact still

/-- A move keeps or drops calls, or its line makes one. -/
theorem Move.pushes {m next : Machine} {events : List Event} (move : m.Move next events) :
    next.stack.items <:+ m.stack.items ∨
      ∃ line frame, m.next? = some line ∧
        Instruction.decode line = .ok (.call frame.function frame.parameters) ∧
        frame.callingLine = line.number ∧ next.stack.items = frame :: m.stack.items := by
  cases move with
  | skip | finish | fail => exact .inl List.suffix_rfl
  | back frame stack address popped | leave frame stack popped =>
    exact .inl ⟨[frame], (Stack.pop?_some popped).2.2.symm⟩
  | run line i next own fetched decoded effect gives =>
    cases effect with
    | work | goto | defer | exit => exact .inl List.suffix_rfl
    | call name arguments region stack known pushed =>
      obtain ⟨_, rfl⟩ := Program.mem_of_function? known
      exact .inr ⟨line, _, fetched, decoded, rfl, (Stack.push_ok pushed).2.2.2⟩

/-- Every call that is active was made by the line that it names, or the run started with it. -/
theorem pushed_walk {m : Machine}
    (start : ∀ frame below, frame :: below <:+ m.stack.items → m.Pushed 0 frame below) (n : Nat) :
    ∀ frame below, frame :: below <:+ (m.walk n).stack.items → m.Pushed n frame below := by
  induction n with
  | zero => exact start
  | succ n ih =>
    intro frame below active
    cases running : (m.walk n).running with
    | false =>
      have before := active
      rw [walk_ended running 1] at before
      exact (ih frame below before).later active
    | true =>
      have stepped := walk_running running
      rcases (m.walk n).step_move.pushes with fewer | ⟨line, top, fetched, decoded, number, more⟩
      · rw [← stepped] at fewer
        exact (ih frame below (active.trans fewer)).later active
      · rw [← stepped] at more
        have among := active
        rw [more] at among
        -- The call is the one just made, or it was active before.
        rcases List.suffix_cons_iff.mp among with whole | inside
        · obtain ⟨rfl, rfl⟩ := List.cons.inj whole
          obtain ⟨opcode, operands⟩ := Instruction.decode_written decoded
          refine .call n line (Nat.lt_succ_self n) fetched opcode number operands rfl more ?_
          intro j after bound
          rw [show j = n + 1 by omega]
          exact active
        · exact (ih frame below inside).later active

end Machine

namespace Session

/-- What a session tells of lines, against the first steps of its machine. -/
structure Cites (s : Session) (source : String) (requests : List Request) : Prop where
  /-- Lines that are carried out stand where their numbers say. -/
  located : ∀ i line, (s.machine.walk i).next? = some line →
    Listing.Located source (s.machine.walk i).pc line
  /-- What they raise names them. -/
  raised : ∀ origin event, (origin, event) ∈ s.machine.log (s.taken requests) →
    event.Cites origin ∧ ∃ i, i < s.taken requests ∧ (s.machine.walk i).next? = origin ∧
      event ∈ (s.machine.walk i).emits
  /-- That is what is shown, or still waits; an interrupt names the line carried out last. -/
  shown : (∃ ends, s.shown requests ++ (s.after requests).pending =
      (s.machine.log (s.taken requests)).map Prod.snd ++ List.replicate ends .stopped) ∨
    (s.after requests).pending = [] ∧
      ∃ ends, s.shown requests = (s.machine.log (s.taken requests)).map Prod.snd ++
        .error (Fault.interrupted.report ((s.machine.last? (s.taken requests)).map Line.number)) ::
          List.replicate ends .stopped
  stack : (s.after requests).machine.stack = (s.machine.walk (s.taken requests)).stack
  /-- Calls name the lines that made them. -/
  calls : ∀ i frame below, frame :: below <:+ (s.machine.walk i).stack.items →
    s.machine.Pushed i frame below

/-- At first no line has been carried out, and only the call that the run starts with is active. -/
theorem load_uncited {source : String} {entry : Option String} {s : Session}
    (loaded : (load source entry).2 = .ok s) :
    s.machine.line = none ∧ ∀ frame below, frame :: below <:+ s.machine.stack.items →
      s.machine.Pushed 0 frame below := by
  rcases load_machine loaded with ⟨_, same⟩ | ⟨function, _, started⟩
  · rw [same]
    refine ⟨rfl, fun frame below active => ?_⟩
    cases List.suffix_nil.mp active
  · generalize s.machine.program = p at started
    generalize s.machine = m at started
    obtain ⟨region, _, rfl⟩ := Machine.startAt_ok started
    refine ⟨rfl, fun frame below active => ?_⟩
    rcases List.suffix_cons_iff.mp active with whole | inside
    · cases whole
      refine .entry rfl rfl rfl rfl fun j bound => ?_
      cases Nat.le_zero.mp bound
      exact active
    · cases List.suffix_nil.mp inside

/-- Whatever is asked of a session, what it shows names the right lines of the file, and so do the
calls that are active. -/
theorem lines_cited {source : String} {entry : Option String} {s : Session}
    (loaded : (load source entry).2 = .ok s) (requests : List Request) : s.Cites source requests := by
  obtain ⟨compiled, fresh, _, _⟩ := load_ok loaded
  obtain ⟨unread, started⟩ := load_uncited loaded
  refine ⟨?_, ?_, ?_, ?_, Machine.pushed_walk started⟩
  · intro i line fetched
    have found := Machine.next?_line fetched
    rw [(s.machine.walk_fixed i).1, Program.line?_eq, (Program.tidy_of_compile compiled).1] at found
    exact Listing.located found
  · intro origin event member
    obtain ⟨i, earlier, rfl, raised⟩ := Machine.mem_log member
    exact ⟨Machine.emits_cites raised, i, earlier, rfl, raised⟩
  · rw [s.machine.log_raised, ← Machine.walk_line unread]
    rw [fresh]
    cases after_progress (m := s.machine) requests with
    | whole ends machine events closed => exact .inl ⟨ends, events⟩
    | broken ends machine clear events => exact .inr ⟨clear, ends, events⟩
  · rcases s.after_machine requests with same | halted
    · rw [same]
    · rw [halted, Machine.halt_stack]

/-- Two calls deep, a line after blank lines and comments warns; what it prints waits for the next
request, and then an interrupt names it once more. -/
theorem lines_cited_interrupted :
    let source := "# start\n\ncall f 1 2 ; go\n\nfunction f\n  call g \"x y\"\nendfunction\n" ++
      "function g\n\n# odd\nprintln \x7ba\x7d\nlb l\njmp l\nendfunction"
    let requests := [.execute 3, .interrupt, .execute 1, .execute 1]
    ∃ s, (load source none).2 = .ok s ∧
      (s.after requests).machine.stack.items.map (fun f => (f.function, f.callingLine, f.parameters)) =
        [("g", 6, ["\"x y\""]), ("f", 3, ["1", "2"])] ∧
      ((s.machine.log (s.taken requests)).map fun entry => entry.1.map Line.number) =
        [some 11, some 11] ∧
      (s.machine.last? (s.taken requests)).map Line.number = some 11 ∧
      (s.shown requests).length = 3 ∧ s.Cites source requests := by
  intro source requests
  obtain ⟨s, loaded, computed⟩ := loaded_with source none
    (fun s =>
      ((s.after requests).machine.stack.items.map (fun f => (f.function, f.callingLine, f.parameters)),
        (s.machine.log (s.taken requests)).map fun entry => entry.1.map Line.number,
        (s.machine.last? (s.taken requests)).map Line.number, (s.shown requests).length))
    ([("g", 6, ["\"x y\""]), ("f", 3, ["1", "2"])], [some 11, some 11], some 11, 3)
    (by decide +kernel)
  simp only [Prod.mk.injEq] at computed
  obtain ⟨calls, origins, last, length⟩ := computed
  exact ⟨s, loaded, calls, origins, last, length, lines_cited loaded requests⟩

end Session

end RegisterMachine
