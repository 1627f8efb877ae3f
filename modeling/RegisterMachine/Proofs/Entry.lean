import RegisterMachine.Proofs.Grouping
import RegisterMachine.Proofs.Lockstep
import RegisterMachine.Proofs.Returns

/-!
Runs of one function. What declares the function can also call it, in a line put in front of the
program (`Listing.ofSource_call`). A run of the function does what that program does, one line further
up: `Session.entry_beside_call` has the two machines side by side until the call returns, and there the
run of the function ends.
-/

namespace RegisterMachine

namespace Line

/-- The line that stands one line further down in its file. -/
def lower (l : Line) : Line := { l with number := l.number + 1 }

theorem read?_lower (number : Nat) (s : String) :
    read? (number + 1) s = (read? number s).map lower := by
  unfold read?
  cases Words.stripComment s.toList with
  | none => rfl
  | some text =>
    dsimp only
    cases Words.split text <;> rfl

/-- What stands in a line as its one operand can stand anywhere as one. -/
structure Nameable (s name : String) : Prop where
  within : ∀ c ∈ name.toList, c ∈ s.toList
  /-- It holds no comment. -/
  plain : ∀ c ∈ name.toList, c ≠ ';'
  ends : ∃ c, name.toList.getLast? = some c ∧ Text.isBlank c = false
  called : Words.split ("call " ++ name).toList = ["call".toList, name.toList]

theorem nameable {number : Nat} {s name : String} {l : Line} (kept : read? number s = some l)
    (single : l.operands = [name]) : Nameable s name := by
  obtain ⟨text, command, operands, stripped, words, rfl⟩ := read?_some kept
  obtain ⟨w, rest, rfl, rfl, none⟩ := List.map_eq_cons_iff.mp single
  cases List.map_eq_nil_iff.mp none
  obtain ⟨within, ends⟩ := Words.operand_within words
  have called := Words.split_operand words "call".toList (by decide) (by simp [Text.isBlank])
  refine ⟨fun c member => ?_, fun c member => ?_, ?_, ?_⟩
  · rw [String.toList_ofList] at member
    exact (Words.mem_of_stripComment stripped (within c member)).1
  · rw [String.toList_ofList] at member
    exact (Words.mem_of_stripComment stripped (within c member)).2
  · simpa using ends
  · simpa using called

/-- A call of such a name is a line of its own. -/
theorem Nameable.read?_call {s name : String} (nameable : Nameable s name) (number : Nat) :
    read? number ("call " ++ name) = some ⟨number, "call " ++ name, "call", [name]⟩ := by
  obtain ⟨c, last, ends⟩ := nameable.ends
  have stripped : Words.stripComment ("call " ++ name).toList = some ("call " ++ name).toList := by
    have spelled : ("call " ++ name).toList = 'c' :: ("all ".toList ++ name.toList) := by simp
    rw [spelled]
    refine Words.stripComment_eq (by decide) (by decide) ?_ ?_ ends
    · intro d member
      simp only [List.mem_cons, List.mem_append] at member
      rcases member with rfl | early | later
      · decide
      · revert d
        simp
      · exact nameable.plain d later
    · simp [List.getLast?_cons, last]
  unfold read?
  simp only [stripped, nameable.called, String.ofList_toList, List.map_cons, List.map_nil]

end Line

namespace Listing

theorem ofLines_lower (first : Nat) (ls : List (List Char)) :
    ofLines (first + 1) ls = (ofLines first ls).map Line.lower := by
  induction ls generalizing first with
  | nil => rfl
  | cons line ls ih =>
    unfold ofLines
    rw [Line.read?_lower, ih]
    cases Line.read? first (String.ofList line) <;> rfl

/-- A call put in front of a text is its first line, and all other lines stand one further down. -/
theorem ofSource_call {source name : String} {l : Line} (member : l ∈ ofSource source)
    (single : l.operands = [name]) :
    ofSource ("call " ++ name ++ "\n" ++ source) =
      ⟨1, "call " ++ name, "call", [name]⟩ :: (ofSource source).map Line.lower := by
  obtain ⟨number, line, among, kept⟩ := mem_ofLines member
  have nameable := Line.nameable kept single
  have feed : '\n' ∉ ("call " ++ name).toList := by
    rw [String.toList_append, List.mem_append]
    rintro (early | later)
    · exact absurd early (by decide)
    · have inside := nameable.within _ later
      rw [String.toList_ofList] at inside
      exact Text.feed_not_mem among inside
  have unbroken : ("call " ++ name).toList.getLast? ≠ some '\r' := by
    obtain ⟨c, last, ends⟩ := nameable.ends
    rw [String.toList_append, List.getLast?_append, last]
    rintro ⟨⟩
    exact absurd ends (by decide)
  have whole : Text.lines ("call " ++ name ++ "\n" ++ source).toList =
      ("call " ++ name).toList :: Text.lines source.toList := by
    rw [← Text.lines_feed feed unbroken]
    simp
  unfold ofSource
  rw [whole, ofLines, String.ofList_toList, nameable.read?_call, ofLines_lower]

end Listing

/-- How a run of one function corresponds to a call from a line put in front of the program. -/
def Likeness.entry : Likeness where
  offset := 1
  numbers n n' := n' = n + 1
  parameters := Eq
  parameters_refl _ := rfl
  origin := some 2

/-- The call as it is made one line further down. -/
def Frame.lower (f : Frame) : Frame where
  function := f.function
  callingLine := f.callingLine + 1
  parameters := f.parameters
  close := f.close + 1
  returnTo := f.returnTo.map (· + 1)

theorem Frame.Like.eq_lower {f f' : Frame} (alike : f.Like .entry f') :
    f' = { f.lower with returnTo := f.lower.returnTo.or (some 2) } := by
  obtain ⟨function, callingLine, parameters, close, returnTo⟩ := f'
  obtain ⟨same, number, params, closes, returns⟩ := alike
  have handed : f.parameters = parameters := params
  have called : callingLine = f.callingLine + 1 := number
  simp only at same closes returns
  subst same called handed closes returns
  rfl

theorem Line.lower_like (l : Line) : l.Like .entry l.lower := ⟨rfl, rfl, .inl ⟨rfl, rfl⟩⟩

namespace Program

/-- The program with a line in front that calls a function of it. -/
theorem compile_called {source function : String} {p : Program} {region : Region}
    (compiled : (compile (Listing.ofSource source)).2 = .ok p)
    (known : p.function? function = some region) :
    ∃ p', (compile (Listing.ofSource ("call " ++ function ++ "\n" ++ source))).2 = .ok p' ∧
      p.Like .entry p' ∧
      p'.line? 1 = some ⟨1, "call " ++ function, "call", [function]⟩ := by
  obtain ⟨lines, tidy⟩ := tidy_of_compile compiled
  obtain ⟨member, rfl⟩ := mem_of_function? known
  -- The line that declares the function has its name for an operand.
  obtain ⟨line, found, _, single⟩ := (tidy.spans region member).declared
  have among : line ∈ Listing.ofSource source := Listing.mem_of_line? (lines ▸ found)
  rw [Listing.ofSource_call among single]
  have same : List.Forall₂ (Line.Like .entry) (Listing.ofSource source)
      ((Listing.ofSource source).map Line.lower) := by
    rw [List.forall₂_map_right_iff, List.forall₂_same]
    exact fun l _ => l.lower_like
  have alike := compile_like same [⟨1, "call " ++ region.name, "call", [region.name]⟩] rfl (by
    intro l front d address
    cases List.mem_singleton.mp front
    rfl)
  rw [compiled] at alike
  generalize result : (compile ([⟨1, "call " ++ region.name, "call", [region.name]⟩] ++
    (Listing.ofSource source).map Line.lower)).2 = outcome at alike
  cases alike with
  | @ok _ p' alike =>
    refine ⟨p', result, alike, ?_⟩
    rw [line?_eq, (tidy_of_compile result).1]
    rfl

end Program

namespace Machine

/-- The second machine runs a function that line 1 calls, the first runs the function alone, and both
are at the same point of it. -/
structure Beside (region : Region) (m m' : Machine) : Prop where
  bank : m'.bank = m.bank
  pc : m'.pc = m.pc + 1
  detour : m'.detour = m.detour.map (· + 1)
  running : m'.running = m.running
  frames : ∃ calls : List Frame, (∀ f ∈ calls, f.returnTo ≠ none) ∧
    m.stack.items = calls ++ [⟨region.name, 0, [], region.close, none⟩] ∧
    m'.stack.items = calls.map Frame.lower ++ [⟨region.name, 1, [], region.close + 1, some 2⟩]

/-- All calls but the outermost return somewhere. -/
theorem Placed.calls_return {m : Machine} {entry : Bool} (placed : m.Placed entry)
    {calls : List Frame} {bottom : Frame} (items : m.stack.items = calls ++ [bottom]) :
    ∀ f ∈ calls, f.returnTo ≠ none := by
  intro f member
  obtain ⟨before, after, rfl⟩ := List.append_of_mem member
  obtain ⟨lower, below, rest⟩ := List.exists_cons_of_ne_nil (l := after ++ [bottom]) (by simp)
  have linked := placed.linked
  rw [items, List.append_assoc, List.cons_append, rest] at linked
  obtain ⟨address, returns, _⟩ := linked.right_of_append.rel
  simp [returns]

/-- The calls of the second machine, down to the outermost. -/
theorem frames_lower {calls items' : List Frame} {bottom : Frame}
    (alike : List.Forall₂ (Frame.Like .entry) (calls ++ [bottom]) items')
    (returns : ∀ f ∈ calls, f.returnTo ≠ none) :
    ∃ bottom', bottom.Like .entry bottom' ∧ items' = calls.map Frame.lower ++ [bottom'] := by
  induction calls generalizing items' with
  | nil =>
    obtain ⟨bottom', rest, first, none, rfl⟩ := List.forall₂_cons_left_iff.mp alike
    cases none
    exact ⟨bottom', first, rfl⟩
  | cons f calls ih =>
    obtain ⟨f', rest, first, others, rfl⟩ := List.forall₂_cons_left_iff.mp alike
    obtain ⟨bottom', last, rfl⟩ := ih others fun g member => returns g (List.mem_cons_of_mem _ member)
    refine ⟨bottom', last, ?_⟩
    obtain ⟨address, goes⟩ := Option.ne_none_iff_exists'.mp (returns f (by simp))
    have same : f' = f.lower := by simp [first.eq_lower, Frame.lower, goes]
    simp [same]

/-- Machines that run the function side by side. -/
theorem Like.beside {m m' : Machine} (alike : m.Like .entry m') (placed : m.Placed true)
    {region : Region}
    (started : [⟨region.name, 0, [], region.close, none⟩] <:+ m.stack.items) :
    Beside region m m' := by
  obtain ⟨calls, items⟩ := started
  have returns := placed.calls_return items.symm
  obtain ⟨bottom', last, below⟩ := frames_lower (items ▸ alike.frames) returns
  refine ⟨alike.bank, alike.pc, alike.detour, alike.running, calls, returns, items.symm, ?_⟩
  rw [below, last.eq_lower]
  rfl

/-- A call that returns nowhere is popped as the only one. -/
theorem Placed.last_pop {m : Machine} {entry : Bool} (placed : m.Placed entry) {frame : Frame}
    (top : m.stack.top? = some frame) (reached : frame.close ≤ m.pc) (nowhere : frame.returnTo = none) :
    m.step.machine.stack.items = [] := by
  rcases popped : m.stack.pop? with _ | ⟨upper, stack⟩
  · simp [Stack.top?, Stack.pop?_none popped] at top
  · have items := (Stack.pop?_some popped).2.2
    have same : upper = frame := by simpa [Stack.top?, items] using top
    subst same
    have left : m.step.machine.stack = stack := by
      simp [step, top, reached, leave, popped, nowhere]
    rw [left]
    rcases List.eq_nil_or_concat stack.items with none | ⟨others, bottom, more⟩
    · exact none
    · rw [more, List.concat_eq_append, ← List.cons_append] at items
      exact absurd nowhere (placed.calls_return items upper (by simp))

section
variable {a b : Machine}

theorem Kept.steady (kept : a.Kept true) (running : a.running = true)
    (stays : a.step.machine.stack.items ≠ []) : a.Steady .entry := by
  obtain ⟨frame, rest, items⟩ := List.exists_cons_of_ne_nil (kept.placed.entered rfl running)
  have top : a.stack.top? = some frame := by simp [Stack.top?, items]
  refine ⟨.inl ?_, .inr ?_⟩
  · obtain ⟨r, _, after, _⟩ := kept.placed.inside running frame top
    omega
  · intro upper first reached nowhere
    exact stays (kept.placed.last_pop first reached nowhere)

/-- Once its outermost call is gone, a run of one function has ended. -/
theorem Kept.calls_before (kept : a.Kept true) {i n : Nat} (earlier : i ≤ n)
    (busy : (a.walk n).stack.items ≠ []) : (a.walk i).stack.items ≠ [] := by
  intro idle
  have ended : (a.walk i).running = false := by
    cases running : (a.walk i).running with
    | false => rfl
    | true => exact absurd idle ((kept.walk i).placed.entered rfl running)
  have same := walk_ended ended (n - i)
  rw [Nat.add_sub_cancel' earlier] at same
  exact busy (same ▸ idle)

theorem Kept.steady_before (kept : a.Kept true) {n : Nat} (busy : (a.walk n).stack.items ≠ []) {i : Nat}
    (earlier : i < n) (running : (a.walk i).running = true) : (a.walk i).Steady .entry := by
  have next := kept.calls_before earlier busy
  rw [walk_running running] at next
  exact (kept.walk i).steady running next

theorem Like.walk_entry (alike : a.Like .entry b) (kept : a.Kept true) {n : Nat}
    (busy : (a.walk n).stack.items ≠ []) : (a.walk n).Like .entry (b.walk n) :=
  alike.walk fun _ earlier running => kept.steady_before busy earlier running

theorem Like.walk_beside (alike : a.Like .entry b) (kept : a.Kept true) {region : Region}
    (called : a.stack.items = [⟨region.name, 0, [], region.close, none⟩]) {n : Nat}
    (busy : (a.walk n).stack.items ≠ []) : Beside region (a.walk n) (b.walk n) := by
  have above : ∀ i, i ≤ n → 0 < (a.walk i).stack.items.length := fun i earlier =>
    List.length_pos_of_ne_nil (kept.calls_before earlier busy)
  exact (alike.walk_entry kept busy).beside (kept.walk n).placed
    (frames_kept called above n (Nat.le_refl n))

theorem Like.emits_entry (alike : a.Like .entry b) (kept : a.Kept true) {n : Nat}
    (busy : (a.walk (n + 1)).stack.items ≠ []) :
    List.Forall₂ (Event.Like .entry (a.walk n).trace (b.walk n).trace) (a.walk n).emits
      (b.walk n).emits := by
  have before := alike.walk_entry kept (kept.calls_before (Nat.le_succ n) busy)
  unfold emits
  rw [before.running]
  split
  · rename_i running
    exact (before.step (kept.steady_before busy (Nat.lt_succ_self n) running)).events
  · exact .nil

/-- Popping the outermost call ends a run of one function for good. -/
theorem Kept.stops (kept : a.Kept true) {n : Nat} (busy : (a.walk n).stack.items ≠ [])
    (gone : (a.walk (n + 1)).stack.items = []) :
    (a.walk n).emits = [.stopped] ∧
      ∀ more, a.walk (n + 1 + more) = a.walk (n + 1) ∧ (a.walk (n + 1 + more)).emits = [] := by
  have running : (a.walk n).running = true := by
    cases running : (a.walk n).running with
    | true => rfl
    | false =>
      rw [walk_ended running 1] at gone
      exact absurd gone busy
  rw [walk_running running] at gone
  have move := (a.walk n).step_move
  rcases move.frames with same | ⟨frame, pushed⟩ | ⟨frame, popped, _⟩
  · exact absurd (same ▸ gone) busy
  · rw [gone] at pushed
    cases pushed
  · rw [gone] at popped
    obtain ⟨ended, stopped⟩ := move.ends_entry (kept.walk n).placed popped gone
    rw [← walk_running running] at ended
    refine ⟨by simp [emits, running, stopped], fun more => ?_⟩
    rw [walk_ended ended more]
    exact ⟨rfl, by simp [emits, ended]⟩

end

/-- No function of the second program holds its first line. -/
theorem unowned_front {p p' : Program} (tidy : p.Tidy) (alike : p.Like .entry p') :
    p'.owner? 1 = none := by
  have shifted : p'.owner? 1 = (p.owner? 0).map (Region.shift 1) := alike.owner? 0
  rw [shifted, Option.map_eq_none_iff]
  cases owner : p.owner? 0 with
  | none => rfl
  | some r =>
    obtain ⟨member, first, _⟩ := Program.mem_of_owner? owner
    obtain ⟨line, found, _⟩ := (tidy.spans r member).declared
    have counted := (Listing.line?_bound found).1
    omega

/-- A call of a known function is the way into it, and raises nothing. -/
theorem dispatch_call {m next : Machine} {line : Line} {function : String} {arguments : List String}
    {region : Region} (decoded : Instruction.decode line = .ok (.call function arguments))
    (known : m.program.function? function = some region)
    (entered : (m.enter region line.number arguments (some m.pc)).result = .ok next) :
    (m.dispatch line).machine = next ∧ (m.dispatch line).events = [] := by
  have attempted : m.attempt line =
      (m.enter region line.number arguments (some m.pc) >>= fun m => pure (m, [])) := by
    simp only [attempt, decoded, perform, Machine.function, known]
    rfl
  have quiet : (m.enter region line.number arguments (some m.pc)).warnings = [] := by
    unfold enter
    cases m.stack.push ⟨region.name, line.number, arguments, region.close, some m.pc⟩ <;> rfl
  unfold dispatch
  rw [attempted]
  generalize m.enter region line.number arguments (some m.pc) = x at entered quiet
  obtain ⟨notes, warnings, result⟩ := x
  subst entered quiet
  exact ⟨rfl, rfl⟩

/-- The line in front calls the function, without an event, and then both machines are in it. -/
theorem call_like {p p' : Program} (tidy : p.Tidy) (alike : p.Like .entry p') {function : String}
    {region : Region} (known : p.function? function = some region) {line : Line}
    (front : p'.line? 1 = some line) (number : line.number = 1)
    (decoded : Instruction.decode line = .ok (.call function [])) :
    ∃ a, (startAt p function).result = .ok a ∧
      a.stack.items = [⟨region.name, 0, [], region.close, none⟩] ∧
      a.Like .entry (start p').step.machine ∧ (start p').step.events = [] := by
  obtain ⟨a, started, items⟩ := startAt_known known
  have first : (start p).Like .entry ((start p').reading line) :=
    ⟨alike, rfl, rfl, rfl, .nil, rfl, rfl, rfl⟩
  have known' : p'.function? function = some (region.shift 1) := by
    rw [alike.function?, known]
    rfl
  have fetched : (start p').next? = some line := by
    have owner : p'.owner? (start p').pc = none := unowned_front tidy alike
    have top : (start p').stack.top? = none := rfl
    simp only [next?, top]
    rw [show (start p').program.owner? (start p').pc = none from owner]
    exact front
  have calls : Attempt.Like (Machine.Like .entry) ((start p).enter region 0 [] none)
      (((start p').reading line).enter (region.shift 1) line.number [] (some 2)) :=
    first.enter region number (Likeness.entry.parameters_refl []) rfl
  have agree := calls.result
  rw [show ((start p).enter region 0 [] none).result = .ok a by simpa [startAt, known] using started]
    at agree
  cases entered : (((start p').reading line).enter (region.shift 1) line.number [] (some 2)).result with
  | error fault =>
    rw [entered] at agree
    cases agree
  | ok b =>
    rw [entered] at agree
    obtain ⟨machine, events⟩ := dispatch_call (m := (start p').reading line) decoded known' entered
    rw [step_next fetched, machine, events]
    cases agree with
    | ok related => exact ⟨a, started, items, related, rfl⟩

end Machine

namespace Session

/-- A run of one function does, step by step, what the program does once a line in front of it has
called the function, until that call returns; then it stops for good, with or without a jump that was
put off. -/
theorem entry_beside_call {source function : String} {p : Program} {region : Region}
    (compiled : (Program.compile (Listing.ofSource source)).2 = .ok p)
    (known : p.function? function = some region) :
    ∃ a b, (load source (some function)).2 = .ok (ofMachine a) ∧
      (load ("call " ++ function ++ "\n" ++ source) none).2 = .ok (ofMachine b) ∧
      b.step.events = [] ∧ a.stack.items = [⟨region.name, 0, [], region.close, none⟩] ∧
      ∀ n, let m := a.walk n
        let m' := b.step.machine.walk n
        (m.stack.items ≠ [] → m.Beside region m') ∧
        ((a.walk (n + 1)).stack.items ≠ [] →
          List.Forall₂ (Event.Like .entry m.trace m'.trace) m.emits m'.emits) ∧
        (m.stack.items ≠ [] → (a.walk (n + 1)).stack.items = [] → m.emits = [.stopped] ∧
          ∀ more, a.walk (n + 1 + more) = a.walk (n + 1) ∧ (a.walk (n + 1 + more)).emits = []) := by
  have tidy := (Program.tidy_of_compile compiled).2
  obtain ⟨p', compiled', alike, front⟩ := Program.compile_called compiled known
  obtain ⟨a, started, called, first, quiet⟩ := Machine.call_like tidy alike known front rfl rfl
  have kept := Machine.startAt_kept tidy started
  refine ⟨a, Machine.start p', load_entry compiled started, load_start compiled', quiet, called, ?_⟩
  intro n m m'
  exact ⟨first.walk_beside kept called, first.emits_entry kept, kept.stops⟩

/-- A function with a blank in its name, which puts off a jump and calls another: side by side two
calls deep, and stopped after five steps. -/
theorem entry_beside_call_quoted :
    let source := "lb out\nfunction \"a b\"\njmp out\ncall g 1\nendfunction\nfunction g\n" ++
      "printstacktrace\nendfunction\n"
    ∃ a b, (load source (some "\"a b\"")).2 = .ok (ofMachine a) ∧
      (load ("call \"a b\"\n" ++ source) none).2 = .ok (ofMachine b) ∧
      (a.walk 2).stack.items.length = 2 ∧ (a.walk 2).detour = some 1 ∧
      (a.walk 2).Beside ⟨"\"a b\"", 2, 5⟩ (b.step.machine.walk 2) ∧
      List.Forall₂ (Event.Like .entry (a.walk 2).trace (b.step.machine.walk 2).trace)
        (a.walk 2).emits (b.step.machine.walk 2).emits ∧
      (a.walk 4).emits = [.stopped] := by
  intro source
  have found : ((Program.compile (Listing.ofSource source)).2.toOption.map fun p =>
      p.function? "\"a b\"") = some (some ⟨"\"a b\"", 2, 5⟩) := by decide +kernel
  obtain ⟨p, compiled, known⟩ := ok_of_computed found
  obtain ⟨s, loaded, computed⟩ := loaded_with source (some "\"a b\"")
    (fun s => ((s.machine.walk 2).stack.items.length, (s.machine.walk 2).detour,
      [3, 4, 5].map fun n => (s.machine.walk n).stack.items.length))
    (2, some 1, [2, 1, 0]) (by decide +kernel)
  obtain ⟨a, b, loaded_a, loaded_b, _, _, beside⟩ := entry_beside_call compiled known
  cases loaded.symm.trans loaded_a
  simp only [ofMachine, Prod.mk.injEq, List.map_cons, List.map_nil, List.cons.injEq, and_true]
    at computed
  obtain ⟨depth, waits, third, fourth, fifth⟩ := computed
  have deep : (a.walk 2).stack.items ≠ [] := List.ne_nil_of_length_pos (by omega)
  have still : (a.walk 3).stack.items ≠ [] := List.ne_nil_of_length_pos (by omega)
  have last : (a.walk 4).stack.items ≠ [] := List.ne_nil_of_length_pos (by omega)
  exact ⟨a, b, loaded_a, loaded_b, depth, waits, (beside 2).1 deep, (beside 2).2.1 still,
    ((beside 4).2.2 last (List.length_eq_zero_iff.mp fifth)).1⟩

end Session

end RegisterMachine
