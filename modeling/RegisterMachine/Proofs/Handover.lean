import RegisterMachine.Proofs.Batches
import RegisterMachine.Proofs.Numbering
import RegisterMachine.Shell.Simulation

/-!
What a shell hands over to a child. The arguments for a child are read back as the file, the function
and the colours that they were made of, unless the file or the function looks like an option
(`parse_plain`, `parse_option_file`, `parse_option_function`). A function that a program launches is one
of its functions, so that a child which reads the same file can start it (`child_starts`).
-/

namespace RegisterMachine

/-- Launches the function from the line of that number. -/
def Event.launches (function : String) (number : Nat) : Event → Bool
  | .launch name line => name = function && line = number
  | _ => false

namespace Arguments

/-- Begins with a dash and goes on. Before a double dash such an argument never names a file or a
function. -/
def isOption (argument : String) : Bool :=
  match argument.toList with
  | '-' :: _ :: _ => true
  | _ => false

/-- The choice of colours that a child is given. -/
def handedChoice (colors : Bool) : ColorChoice := if colors then .always else .never

namespace Reader

/-- Every file that has been taken in has a name. -/
def Named (r : Reader) : Prop := ∀ path, r.file = some path → path.isEmpty = false

theorem Named.settle {r next : Reader} (named : r.Named) (settled : r.settle = .ok next) :
    next.Named := by
  unfold Reader.settle at settled
  split at settled
  · cases settled
    exact named
  · rename_i path _
    split at settled
    · cases settled
    · rename_i filled
      cases settled
      rintro _ ⟨⟩
      simpa using filled
  · cases settled
    exact named
  · cases settled
  · split at settled
    · cases settled
    · split at settled
      · cases settled
      · cases settled
        exact named

/-- Once the argument before has been checked, it is enough that the rest keeps the names. -/
theorem Named.settling {r next : Reader} {rest : Reader → Except Refusal Reader} (named : r.Named)
    (keeps : ∀ {mid : Reader}, mid.Named → rest mid = .ok next → next.Named)
    (bound : r.settle.bind rest = .ok next) : next.Named := by
  cases settled : r.settle with
  | error refusal =>
    rw [settled] at bound
    cases bound
  | ok mid =>
    rw [settled] at bound
    exact keeps (named.settle settled) bound

theorem Named.readPositional {r next : Reader} {argument : String} (named : r.Named)
    (read : r.readPositional argument = .ok next) : next.Named := by
  have keeps {count : Nat} {item : Item}
      (mapped : (r.settle.map fun r => { r with positionals := count, item := some item }) =
        .ok next) : next.Named := by
    cases settled : r.settle with
    | error refusal =>
      rw [settled] at mapped
      cases mapped
    | ok mid =>
      have known := named.settle settled
      rw [settled] at mapped
      cases mapped
      exact known
  unfold Reader.readPositional at read
  split at read
  · exact keeps read
  · exact keeps read
  · cases read

theorem Named.readLong {r next : Reader} {name : List Char} {value : Option (List Char)}
    (named : r.Named) (read : r.readLong name value = .ok next) : next.Named := by
  unfold Reader.readLong at read
  split at read
  · refine named.settling ?_ read
    intro mid known rest
    cases value with
    | none =>
      cases rest
      exact known
    | some value =>
      let r' : Reader := { mid with item := some (.color (some (String.ofList value))) }
      have same : r'.Named := known
      exact same.settle rest
  · split at read
    · split at read
      · cases read
      · refine named.settling ?_ read
        intro mid _ rest
        cases rest
    · cases read

theorem Named.read {r next : Reader} {argument : String} (named : r.Named)
    (read : r.read argument = .ok next) : next.Named := by
  unfold Reader.read at read
  split at read
  · exact named.readPositional read
  · split at read
    · cases read
      exact named
    · exact named.readLong read
    · unfold readShort at read
      have ends {refusal : Refusal} (bound : (r.settle.bind fun _ => .error refusal) = .ok next) :
          next.Named := named.settling (fun _ rest => by cases rest) bound
      split at read
      · exact ends read
      · split at read
        · exact ends read
        · cases read
    · unfold readPlain at read
      split at read
      · cases read
        exact named
      · exact named.readPositional read

theorem Named.readAll {r next : Reader} {arguments : List String} (named : r.Named)
    (read : r.readAll arguments = .ok next) : next.Named := by
  induction arguments generalizing r with
  | nil =>
    cases read
    exact named
  | cons argument rest ih =>
    simp only [Reader.readAll] at read
    cases first : r.read argument with
    | error refusal =>
      rw [first] at read
      cases read
    | ok mid =>
      rw [first] at read
      exact ih (named.read first) read

theorem Named.finish {r : Reader} {a : Arguments} (named : r.Named) (finished : r.finish = .ok a) :
    a.file.isEmpty = false := by
  unfold Reader.finish at finished
  cases settled : r.settle with
  | error refusal =>
    rw [settled] at finished
    cases finished
  | ok mid =>
    rw [settled] at finished
    simp only [Except.bind] at finished
    split at finished
    · cases finished
    · rename_i file found
      cases finished
      exact named.settle settled file found

end Reader

/-- Arguments that are accepted name a file. -/
theorem file_named {arguments : List String} {a : Arguments} (parsed : parse arguments = .ok a) :
    a.file.isEmpty = false := by
  unfold parse at parsed
  cases read : Reader.initial.readAll arguments with
  | error refusal =>
    rw [read] at parsed
    cases parsed
  | ok r =>
    rw [read] at parsed
    have unread : Reader.initial.Named := by
      rintro path ⟨⟩
    exact (unread.readAll read).finish parsed

theorem ofText?_text (choice : ColorChoice) : ColorChoice.ofText? choice.text = some choice := by
  cases choice <;> rfl

namespace Reader

/-- What has been read of the arguments for a child, all but the function. -/
def handed (file : String) (choice : ColorChoice) : Reader :=
  ⟨some file, none, none, 1, some (.color (some choice.text)), false⟩

theorem read_plain {r : Reader} {argument : String} (before : r.optionsEnded = false)
    (plain : isOption argument = false) : r.read argument = r.readPlain argument := by
  unfold isOption at plain
  simp only [read, before, Bool.false_eq_true, if_false]
  split
  · rename_i text
    simp [text] at plain
  · rename_i text
    simp [text] at plain
  · rename_i text
    simp [text] at plain
  · rfl

theorem readAll_last (r : Reader) (argument : String) : r.readAll [argument] = r.read argument := by
  simp only [readAll]
  cases r.read argument <;> rfl

/-- The option for colours and its value are taken in together. -/
theorem readAll_color {r mid : Reader} (before : r.optionsEnded = false)
    (settled : r.settle = .ok mid) (still : mid.optionsEnded = false) (choice : ColorChoice)
    (rest : List String) :
    r.readAll ("--color" :: choice.text :: rest) =
      ({ mid with item := some (.color (some choice.text)) } : Reader).readAll rest := by
  have named : r.read "--color" = .ok { mid with item := some (.color none) } := by
    simp [read, before, readLong, settled, Except.bind]
  have plain : isOption choice.text = false := by cases choice <;> rfl
  have valued : ({ mid with item := some (.color none) } : Reader).read choice.text =
      .ok { mid with item := some (.color (some choice.text)) } :=
    read_plain (r := { mid with item := some (.color none) }) still plain
  simp only [readAll, named, valued, Except.bind]

theorem readAll_handed {file : String} (plain : isOption file = false)
    (filled : file.isEmpty = false) (choice : ColorChoice) (rest : List String) :
    initial.readAll (file :: "--color" :: choice.text :: rest) =
      (handed file choice).readAll rest := by
  have first : initial.read file = .ok ⟨none, none, none, 1, some (.file file), false⟩ :=
    read_plain rfl plain
  have settled : (⟨none, none, none, 1, some (.file file), false⟩ : Reader).settle =
      .ok ⟨some file, none, none, 1, none, false⟩ := by
    simp [settle, filled]
  rw [readAll, first]
  exact readAll_color rfl settled rfl choice rest

theorem readShort_refused (r : Reader) (letter : Char) :
    ∃ refusal, r.readShort letter = .error refusal := by
  have ends (refusal : Refusal) :
      ∃ other, (r.settle.bind fun _ => (.error refusal : Except Refusal Reader)) = .error other := by
    cases r.settle with
    | error other => exact ⟨other, rfl⟩
    | ok mid => exact ⟨refusal, rfl⟩
  unfold readShort
  split
  · exact ends .help
  · split
    · exact ends .version
    · exact ⟨_, rfl⟩

/-- What comes of the option for colours, once the argument before it has been checked. -/
def coloring (mid : Reader) (value : Option String) : Except Refusal Reader :=
  value.elim (.ok { mid with item := some (.color none) })
    fun value => { mid with item := some (.color (some value)) }.settle

/-- A named option is refused, unless it is the one for colours. -/
theorem readLong_cases (r : Reader) (name : List Char) (value : Option (List Char)) :
    (∃ refusal, r.readLong name value = .error refusal) ∨
      ∃ mid, r.settle = .ok mid ∧ r.readLong name value = mid.coloring (value.map String.ofList) := by
  unfold readLong
  split
  · cases settled : r.settle with
    | error refusal => exact .inl ⟨refusal, rfl⟩
    | ok mid =>
      refine .inr ⟨mid, rfl, ?_⟩
      cases value <;> rfl
  · refine .inl ?_
    split
    · split
      · exact ⟨_, rfl⟩
      · cases r.settle with
        | error refusal => exact ⟨refusal, rfl⟩
        | ok mid => exact ⟨_, rfl⟩
    · exact ⟨_, rfl⟩

/-- How an argument that looks like an option is read. -/
theorem read_option {r : Reader} {argument : String} (before : r.optionsEnded = false)
    (option : isOption argument = true) :
    (argument = "--" ∧ r.read argument = .ok { r with optionsEnded := true }) ∨
      (∃ refusal, r.read argument = .error refusal) ∨
      ∃ mid value, r.settle = .ok mid ∧ r.read argument = mid.coloring value := by
  unfold isOption at option
  simp only [read, before, Bool.false_eq_true, if_false]
  split
  · rename_i text
    exact .inl ⟨String.toList_injective text, rfl⟩
  · rename_i rest _ _
    refine .inr ?_
    rcases r.readLong_cases (rest.takeWhile (· ≠ '=')) ((rest.dropWhile (· ≠ '=')).tail?) with
      refused | ⟨mid, settled, same⟩
    · exact .inl refused
    · exact .inr ⟨mid, _, settled, same⟩
  · exact .inr (.inl (r.readShort_refused _))
  · rename_i others
    split at option
    · rename_i letter _ text
      exact absurd text (others letter _)
    · cases option

/-- Colours that are chosen a second time are refused, whatever comes next. -/
theorem refused_again {r : Reader} {value : String} (before : r.optionsEnded = false)
    (chosen : r.color.isSome = true) (again : r.item = some (.color (some value)))
    (argument : String) : ∃ refusal, (r.read argument).bind finish = .error refusal := by
  have refused : r.settle = .error .repeatedOption := by simp [settle, again, chosen]
  cases option : isOption argument with
  | true =>
    rcases read_option before option with ⟨_, read⟩ | ⟨refusal, read⟩ | ⟨mid, _, settled, _⟩
    · exact ⟨.repeatedOption, by simp [read, Except.bind, finish, settle, again, chosen]⟩
    · exact ⟨refusal, by simp [read, Except.bind]⟩
    · rw [refused] at settled
      cases settled
  | false =>
    rw [read_plain before option, readPlain, again]
    simp only [readPositional, refused, Except.map]
    split <;> exact ⟨_, rfl⟩

end Reader

theorem parse_cons (argument : String) (rest : List String) :
    parse (argument :: rest) =
      (Reader.initial.read argument).bind fun r => (r.readAll rest).bind Reader.finish := by
  simp only [parse, Reader.readAll]
  cases Reader.initial.read argument <;> rfl

/-- A child that is given a file which looks like an option does not run. -/
theorem parse_option_file {file : String} (option : isOption file = true) (choice : ColorChoice)
    (function : String) :
    ∃ refusal, parse [file, "--color", choice.text, function] = .error refusal := by
  rw [parse_cons]
  rcases Reader.read_option (r := .initial) rfl option with
    ⟨_, read⟩ | ⟨refusal, read⟩ | ⟨mid, value, settled, read⟩
  · -- All that follows the double dash is positional, and that is one too many.
    rw [read]
    exact ⟨.unknownArgument, by cases choice <;> rfl⟩
  · rw [read]
    exact ⟨refusal, rfl⟩
  · cases settled
    cases value with
    | none =>
      rw [read]
      exact ⟨.invalidValue, rfl⟩
    | some value =>
      cases chosen : ColorChoice.ofText? value with
      | none =>
        have refused : Reader.initial.coloring (some value) = .error .invalidValue := by
          simp [Reader.coloring, Reader.settle, Reader.initial, chosen]
        rw [read, refused]
        exact ⟨.invalidValue, rfl⟩
      | some first =>
        have colored : Reader.initial.coloring (some value) =
            .ok ⟨none, none, some first, 0, none, false⟩ := by
          simp [Reader.coloring, Reader.settle, Reader.initial, chosen]
        let r : Reader := ⟨none, none, some first, 0, none, false⟩
        have again : r.readAll ["--color", choice.text, function] =
            ({ r with item := some (.color (some choice.text)) } : Reader).read function := by
          rw [Reader.readAll_color rfl rfl rfl, Reader.readAll_last]
        rw [read, colored]
        change ∃ refusal, (r.readAll ["--color", choice.text, function]).bind Reader.finish =
          .error refusal
        rw [again]
        exact Reader.refused_again rfl rfl rfl function

/-- The arguments for a child are read back as they were meant, if neither the file nor the function
looks like an option. -/
theorem parse_plain {file function : String} (plain : isOption file = false)
    (filled : file.isEmpty = false) (choice : ColorChoice) (given : isOption function = false) :
    parse [file, "--color", choice.text, function] = .ok ⟨file, some function, choice⟩ := by
  have read : (Reader.handed file choice).read function =
      .ok ⟨some file, none, some choice, 2, some (.function function), false⟩ := by
    rw [Reader.read_plain rfl given]
    simp [Reader.handed, Reader.readPlain, Reader.readPositional, Reader.settle, ofText?_text,
      Except.map]
  rw [parse, Reader.readAll_handed plain filled, Reader.readAll_last, read]
  rfl

/-- A double dash in place of a function leaves the child without one, and any other option in its
place is refused. -/
theorem parse_option_function {file function : String} (plain : isOption file = false)
    (filled : file.isEmpty = false) (choice : ColorChoice) (option : isOption function = true) :
    function = "--" ∧ parse [file, "--color", choice.text, function] = .ok ⟨file, none, choice⟩ ∨
      ∃ refusal, parse [file, "--color", choice.text, function] = .error refusal := by
  have settled : (Reader.handed file choice).settle =
      .ok ⟨some file, none, some choice, 1, none, false⟩ := by
    simp [Reader.handed, Reader.settle, ofText?_text]
  rw [parse, Reader.readAll_handed plain filled, Reader.readAll_last]
  rcases Reader.read_option (r := .handed file choice) rfl option with
    ⟨dashes, read⟩ | ⟨refusal, read⟩ | ⟨mid, value, same, read⟩
  · refine .inl ⟨dashes, ?_⟩
    rw [read]
    simp [Reader.handed, Reader.finish, Reader.settle, ofText?_text, Except.bind]
  · rw [read]
    exact .inr ⟨refusal, rfl⟩
  · rw [settled] at same
    cases same
    rw [read]
    cases value with
    | none => exact .inr ⟨.invalidValue, rfl⟩
    | some value => exact .inr ⟨.repeatedOption, rfl⟩

end Arguments

namespace Machine

theorem raised_launch {m : Machine} {function : String} {number n : Nat}
    (raised : .launch function number ∈ m.raised n) :
    ∃ region, m.program.function? function = some region := by
  induction n with
  | zero => cases raised
  | succ n ih =>
    rcases List.mem_append.mp raised with earlier | last
    · exact ih earlier
    · unfold emits at last
      split at last
      · obtain ⟨_, region, _, _, _, known⟩ := step_launch last
        rw [(m.walk_fixed n).1] at known
        exact ⟨region, known⟩
      · cases last

end Machine

namespace Session

/-- Whatever is asked of a session, each launch that it answers with is of a function of its program. -/
theorem answers_launch (m : Machine) {requests : List Request} {function : String} {number : Nat}
    (answered : .launch function number ∈ (ofMachine m).answers requests) :
    ∃ region, m.program.function? function = some region := by
  have shown : .launch function number ∈ (ofMachine m).shown requests :=
    List.mem_filter.mpr ⟨answered, rfl⟩
  obtain ⟨delivered, agrees⟩ := exists_agrees m requests
  have among : .launch function number ∈ delivered := by
    rcases agrees.follows with same | ⟨line, ends, same⟩
    · exact same ▸ shown
    · rw [same] at shown
      simpa using shown
  obtain ⟨ends, complete, _⟩ := agrees.complete
  have raised : .launch function number ∈
      m.raised ((ofMachine m).taken requests) ++ List.replicate ends .stopped :=
    complete ▸ List.mem_append_left _ among
  exact Machine.raised_launch (by simpa using raised)

end Session

namespace Shell

theorem load_ok {files : Files} {a : Arguments} {s : Session} (loaded : load files a = .ok s) :
    ∃ source, files a.file = .ok source ∧ (Session.load source a.function).2 = .ok s := by
  unfold load at loaded
  split at loaded
  · cases loaded
  · rename_i source read
    exact ⟨source, read, loaded⟩

/-- A child that a program launches reads its arguments back as the file, the function and the colours
that were meant exactly if neither the file nor the function looks like an option. With the file as it
was, what was meant can be loaded, and the child starts in the function. -/
theorem child_starts {files : Files} {arguments : List String} {a : Arguments} {s : Session}
    (parsed : Arguments.parse arguments = .ok a) (loaded : load files a = .ok s)
    {requests : List Request} {function : String} {number : Nat}
    (answered : .launch function number ∈ s.answers requests) (terminal : Colors) :
    let out := (Colors.choose a.color terminal).out
    let child : Arguments := ⟨a.file, some function, Arguments.handedChoice out⟩
    (Arguments.parse (a.forChild out function) = .ok child ↔
        Arguments.isOption a.file = false ∧ Arguments.isOption function = false) ∧
      ∃ m, (Machine.startAt s.machine.program function).result = .ok m ∧
        load files child = .ok (.ofMachine m) ∧
        (Arguments.isOption a.file = false → Arguments.isOption function = false → ∀ pipes,
          Course.start files pipes (a.forChild out function) =
            .running child (.start (.ofMachine m) (.choose child.color pipes))) := by
  intro out child
  have filled := Arguments.file_named parsed
  have plain (file : Arguments.isOption a.file = false) (given : Arguments.isOption function = false) :
      Arguments.parse (a.forChild out function) = .ok child :=
    Arguments.parse_plain file filled (Arguments.handedChoice out) given
  obtain ⟨source, read, session⟩ := load_ok loaded
  obtain ⟨compiled, fresh, _, _⟩ := Session.load_ok session
  rw [fresh] at answered
  obtain ⟨region, known⟩ := Session.answers_launch s.machine answered
  obtain ⟨m, started, _⟩ := Machine.startAt_known known
  have starts : load files child = .ok (.ofMachine m) := by
    simp only [load, child, read]
    exact Session.load_entry compiled started
  refine ⟨⟨fun decoded => ?_, fun both => plain both.1 both.2⟩, m, started, starts, ?_⟩
  · have same : Arguments.parse [a.file, "--color", (Arguments.handedChoice out).text, function] =
        .ok child := decoded
    cases file : Arguments.isOption a.file with
    | true =>
      obtain ⟨refusal, refused⟩ :=
        Arguments.parse_option_file file (Arguments.handedChoice out) function
      rw [refused] at same
      cases same
    | false =>
      cases given : Arguments.isOption function with
      | true =>
        rcases Arguments.parse_option_function file filled (Arguments.handedChoice out) given with
          ⟨_, lost⟩ | ⟨refusal, refused⟩
        · rw [lost] at same
          cases congrArg Arguments.function (Except.ok.inj same)
        · rw [refused] at same
          cases same
      | false => exact ⟨rfl, rfl⟩
  · intro file given pipes
    simp only [Course.start, plain file given, starts]

/-- The file has no name but a dash, the colours are on, and the function has a blank in its name. -/
theorem child_starts_quoted :
    let files : Files := fun _ =>
      .ok "function f\nasync \"a b\"\nendfunction\nfunction \"a b\"\nendfunction"
    let a : Arguments := ⟨"-", some "f", .always⟩
    Arguments.parse ["--color=always", "--", "-", "f"] = .ok a ∧
      Arguments.parse (a.forChild true "\"a b\"") = .ok ⟨"-", some "\"a b\"", .always⟩ ∧
      ∃ m, load files ⟨"-", some "\"a b\"", .always⟩ = .ok (.ofMachine m) := by
  intro files a
  have parsed : Arguments.parse ["--color=always", "--", "-", "f"] = .ok a := by decide +kernel
  have computed : (load files a).toOption.map (fun s =>
      (s.answers [.execute 1]).any (Event.launches "\"a b\"" 2)) = some true := by decide +kernel
  obtain ⟨s, loaded, found⟩ := ok_of_computed computed
  obtain ⟨event, member, launch⟩ := List.any_eq_true.mp found
  cases event <;> simp [Event.launches] at launch
  obtain ⟨rfl, rfl⟩ := launch
  obtain ⟨decodes, m, _, starts, _⟩ := child_starts parsed loaded member ⟨false, false⟩
  have file : Arguments.isOption "-" = false := by decide +kernel
  have function : Arguments.isOption "\"a b\"" = false := by decide +kernel
  exact ⟨parsed, decodes.mpr ⟨file, function⟩, m, starts⟩

/-- A function whose name ends the options: the child is told of no function and runs the program
from its first line, so that its status is not that of the function. -/
theorem child_unnamed :
    let files : Files := fun _ =>
      .ok ("println \"top\"\nexit 3\nfunction main\nasync --\nendfunction\n" ++
        "function --\nprintln \"no\"\nendfunction\n")
    let a : Arguments := ⟨"prog.asm", some "main", .auto⟩
    Arguments.parse ["prog.asm", "--", "main"] = .ok a ∧
      (load files a).toOption.map (fun s =>
        (s.answers [.execute 1]).any (Event.launches "--" 4)) = some true ∧
      Arguments.parse (a.forChild false "--") = .ok ⟨"prog.asm", none, .never⟩ ∧
      ((Simulation.start files ⟨false, false⟩ none ["prog.asm", "--", "main"]).run files 20).status =
        some 3 := by
  decide +kernel

end Shell

end RegisterMachine
