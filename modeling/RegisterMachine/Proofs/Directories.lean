import RegisterMachine.Proofs.Acceptance
import RegisterMachine.Proofs.Likeness

/-!
The tables of a program by place. A directory keeps the functions in a list and says of names and of
lines at which place of the list their function stands. What is taken from a place that a list does not
have is `none`, and so is a difference below zero. No such access is made while a listing is compiled
to a directory, and the directory answers every question as the program does (`Directory.compile?_agrees`).
-/

namespace RegisterMachine

/-- The difference of two numbers, if it is not below zero. -/
def minus? (a b : Nat) : Option Nat := if b ≤ a then some (a - b) else none

theorem minus?_one {a : Nat} (positive : 0 < a) : minus? a 1 = some (a - 1) := if_pos positive

section Slices

variable {α : Type}

/-- The part of a list from one place up to another, if the places are in order and in the list. -/
def slice? (xs : List α) (first last : Nat) : Option (List α) :=
  if first ≤ last ∧ last ≤ xs.length then some ((xs.drop first).take (last - first)) else none

/-- Puts a value everywhere from one place up to another. -/
def fill (xs : List α) (first last : Nat) (value : α) : List α :=
  xs.mapIdx fun i old => if first ≤ i ∧ i < last then value else old

/-- Puts a value everywhere from one place up to another, if they are in order and in the list. -/
def fill? (xs : List α) (first last : Nat) (value : α) : Option (List α) :=
  if first ≤ last ∧ last ≤ xs.length then some (fill xs first last value) else none

@[simp] theorem length_fill (xs : List α) (first last : Nat) (value : α) :
    (fill xs first last value).length = xs.length := List.length_mapIdx

theorem getElem?_fill (xs : List α) (first last : Nat) (value : α) (i : Nat) :
    (fill xs first last value)[i]? =
      xs[i]?.map fun old => if first ≤ i ∧ i < last then value else old := List.getElem?_mapIdx

theorem mem_of_fill {xs : List α} {first last : Nat} {value a : α}
    (member : a ∈ fill xs first last value) : a = value ∨ a ∈ xs := by
  obtain ⟨i, within, rfl⟩ := List.mem_mapIdx.mp member
  split
  · exact .inl rfl
  · exact .inr (List.getElem_mem within)

end Slices

/-- The tables of a program, with functions named by their places. -/
structure Directory where
  /-- The functions, in the order in which they were closed. -/
  functions : List Region
  /-- The places of the functions by name, the latest first. -/
  names : Table Nat
  /-- For every line the place of the function that it lies in. -/
  owners : List (Option Nat)
  labels : Table Nat

namespace Directory

/-- The function at a place, if a place is given. -/
def pick? (functions : List Region) : Option Nat → Option (Option Region)
  | none => some none
  | some place => functions[place]?.map some

def function (x : Directory) (name : String) : Option (Option Region) :=
  pick? x.functions (x.names.find? name)

/-- The place that is kept for the line at an address. -/
def place? (x : Directory) (address : Nat) : Option Nat :=
  ((minus? address 1).bind fun line => x.owners[line]?).join

def owner (x : Directory) (address : Nat) : Option (Option Region) :=
  pick? x.functions (x.place? address)

/-- The lines strictly inside a function. -/
def body? (lines : List Line) (r : Region) : Option (List Line) := do
  slice? lines r.declaration (← minus? r.close 1)

/-- The directory with one more function, at the place after all others. -/
def enter (x : Directory) (r : Region) (owners : List (Option Nat)) : Directory :=
  { x with
    functions := x.functions ++ [r]
    names := (r.name, x.functions.length) :: x.names
    owners := owners }

/-- Enters a function and keeps its place for its lines, if the directory has them. -/
def close? (x : Directory) (r : Region) : Option Directory := do
  let first ← minus? r.declaration 1
  let owners ← fill? x.owners first r.close (some x.functions.length)
  return x.enter r owners

/-- The directory before any line is read. It has room for all lines. -/
def blank (size : Nat) : Directory := ⟨[], [], List.replicate size none, []⟩

/-- A directory under way, with the name and the address of the function that is open. -/
structure Sketch extends Directory where
  opening : Option (String × Nat)

/-- The only operand of a line, taken by its place once their number is known to be right. -/
def single? (opcode : Opcode) (line : Line) : Option (Except Fault String) :=
  if opcode.arity.admits line.operands.length then line.operands[0]?.map .ok
  else some (.error (.wrongCount opcode.arity line.operands.length))

namespace Sketch

/-- Reads one more line. -/
def read? (k : Sketch) (address : Nat) (line : Line) : Option (Except Fault Sketch) :=
  match Opcode.ofCommand? line.command with
  | some .function =>
    match k.opening with
    | some (name, _) => some (.error (.nestedFunction name))
    | none =>
      (single? .function line).map fun operand =>
        operand.map fun name => { k with opening := some (name, address) }
  | some .endFunction =>
    match k.opening with
    | none => some (.ok k)
    | some (name, declaration) =>
      (k.close? ⟨name, declaration, address⟩).map fun x => .ok ⟨x, none⟩
  | some .lb =>
    (single? .lb line).map fun operand =>
      operand.map fun name => { k with labels := (name, address) :: k.labels }
  | _ => some (.ok k)

/-- Reads lines in order, the first of them at the given address, up to one that is malformed. -/
def readAll? (k : Sketch) (address : Nat) : List Line → Option (Except Diagnostic Sketch)
  | [] => some (.ok k)
  | line :: rest =>
    match k.read? address line with
    | none => none
    | some (.error fault) => some (.error (fault.report (some line.number)))
    | some (.ok next) => next.readAll? (address + 1) rest

/-- The directory of a sketch in which no function is left open. The line that declares an open one is
looked up to be blamed. -/
def finish? (k : Sketch) (listing : Listing) : Option (Except Diagnostic Directory) :=
  match k.opening with
  | none => some (.ok k.toDirectory)
  | some (name, declaration) => do
    let line ← listing[← minus? declaration 1]?
    return .error ((Fault.unclosedFunction name).report (some line.number))

end Sketch

/-- The directory of a listing, or what is wrong with it. There is neither if an access fails. -/
def compile? (listing : Listing) : Option (Except Diagnostic Directory) := do
  match ← Sketch.readAll? ⟨blank listing.length, none⟩ 1 listing with
  | .error diagnostic => return .error diagnostic
  | .ok k => k.finish? listing

/-- The directory holds these functions, the latest first, for a number of lines. Every place that it
keeps is the place of a function, and it finds the functions that a search finds. -/
structure Lists (x : Directory) (regions : List Region) (size : Nat) : Prop where
  functions : x.functions = regions.reverse
  size : x.owners.length = size
  named : ∀ entry ∈ x.names, entry.2 < x.functions.length
  owned : ∀ place, some place ∈ x.owners → place < x.functions.length
  function : ∀ name, x.function name = some (regions.find? (·.name = name))
  owner : ∀ address, x.owner address = some (regions.find? (·.holds address))

theorem pick?_append {functions : List Region} {place : Option Nat}
    (within : ∀ i ∈ place, i < functions.length) (r : Region) :
    pick? (functions ++ [r]) place = pick? functions place := by
  cases place with
  | none => rfl
  | some i =>
    simp only [pick?]
    rw [List.getElem?_append_left (within i rfl)]

theorem pick?_last (functions : List Region) (r : Region) :
    pick? (functions ++ [r]) (some functions.length) = some (some r) := by
  simp [pick?]

theorem mem_of_place? {x : Directory} {address place : Nat} (kept : x.place? address = some place) :
    some place ∈ x.owners := by
  obtain ⟨line, _, found⟩ := Option.bind_eq_some_iff.mp (Option.join_eq_some_iff.mp kept)
  exact List.mem_of_getElem? found

theorem lists_blank (size : Nat) : (blank size).Lists [] size where
  functions := rfl
  size := List.length_replicate
  named := by simp [blank]
  owned := by simp [blank]
  function := fun _ => rfl
  owner := by
    intro address
    have nowhere : (blank size).place? address = none := by
      cases kept : (blank size).place? address with
      | none => rfl
      | some place => simpa [blank] using mem_of_place? kept
    simp [owner, nowhere, pick?]

/-- The directory once a function is entered. -/
def closed (x : Directory) (r : Region) : Directory :=
  x.enter r (fill x.owners (r.declaration - 1) r.close (some x.functions.length))

/-- A function with lines in the directory can be entered. -/
theorem close?_eq {x : Directory} {r : Region} (first : 0 < r.declaration)
    (ordered : r.declaration ≤ r.close) (last : r.close ≤ x.owners.length) :
    x.close? r = some (x.closed r) := by
  have filled : fill? x.owners (r.declaration - 1) r.close (some x.functions.length) =
      some (fill x.owners (r.declaration - 1) r.close (some x.functions.length)) :=
    if_pos ⟨by omega, last⟩
  simp [close?, minus?_one first, filled, closed]

/-- The place of a new function is kept for exactly its lines. -/
theorem place?_closed {x : Directory} {r : Region} (first : 0 < r.declaration)
    (last : r.close ≤ x.owners.length) (address : Nat) :
    (x.closed r).place? address =
      if r.holds address = true then some x.functions.length else x.place? address := by
  cases address with
  | zero => simp [place?, minus?, Region.holds, Nat.ne_of_gt first]
  | succ line =>
    have here : minus? (line + 1) 1 = some line := minus?_one (Nat.succ_pos line)
    simp only [place?, here, Option.bind_some, closed, enter, getElem?_fill, Region.holds,
      Bool.and_eq_true, decide_eq_true_eq]
    by_cases inside : r.declaration ≤ line + 1 ∧ line + 1 ≤ r.close
    · have within : line < x.owners.length := by omega
      have filled : r.declaration - 1 ≤ line ∧ line < r.close := by omega
      simp [inside, within, filled]
    · have kept : ¬ (r.declaration - 1 ≤ line ∧ line < r.close) := by omega
      simp only [inside, kept, if_false, Option.map_id_fun', id_eq]

/-- A function that is entered is found under its name and at its lines from then on. -/
theorem Lists.closed {x : Directory} {regions : List Region} {size : Nat}
    (lists : x.Lists regions size) {r : Region} (first : 0 < r.declaration)
    (last : r.close ≤ size) : (x.closed r).Lists (r :: regions) size where
  functions := by simp [Directory.closed, enter, lists.functions]
  size := by simp [Directory.closed, enter, lists.size]
  named := by
    intro entry member
    simp only [Directory.closed, enter, List.length_append, List.length_singleton]
    rcases List.mem_cons.mp member with rfl | old
    · exact Nat.lt_succ_self _
    · exact Nat.lt_succ_of_lt (lists.named entry old)
  owned := by
    intro place member
    simp only [Directory.closed, enter, List.length_append, List.length_singleton]
    rcases mem_of_fill member with same | old
    · cases same
      exact Nat.lt_succ_self _
    · exact Nat.lt_succ_of_lt (lists.owned place old)
  function := by
    intro name
    by_cases same : r.name = name
    · simp [Directory.function, Directory.closed, enter, Table.find?, same, pick?_last]
    · have older : ∀ place ∈ x.names.find? name, place < x.functions.length := fun place found =>
        lists.named (name, place) (Table.mem_of_find? found)
      have found := lists.function name
      simp only [Directory.function] at found
      simp [Directory.function, Directory.closed, enter, Table.find?, same, pick?_append older, found]
  owner := by
    intro address
    have place := place?_closed first (lists.size ▸ last) address
    cases inside : r.holds address with
    | true =>
      rw [inside, if_pos rfl] at place
      have found : (r :: regions).find? (·.holds address) = some r := by simp [inside]
      rw [Directory.owner, place, found]
      exact pick?_last x.functions r
    | false =>
      have older : ∀ place ∈ x.place? address, place < x.functions.length := fun place kept =>
        lists.owned place (mem_of_place? kept)
      rw [inside, if_neg Bool.false_ne_true] at place
      have found : (r :: regions).find? (·.holds address) = regions.find? (·.holds address) := by
        simp [inside]
      rw [Directory.owner, place, found, ← lists.owner address]
      exact pick?_append older r

theorem Lists.relabel {x : Directory} {regions : List Region} {size : Nat}
    (lists : x.Lists regions size) (labels : Table Nat) :
    Lists { x with labels := labels } regions size :=
  ⟨lists.functions, lists.size, lists.named, lists.owned, lists.function, lists.owner⟩

/-- The operand is there if their number is right. -/
theorem single?_eq (opcode : Opcode) (one : opcode.arity = .exactly 1) (line : Line) :
    (∃ name, line.operands = [name] ∧ single? opcode line = some (.ok name)) ∨
      (∀ name, line.operands ≠ [name]) ∧
        single? opcode line = some (.error (.wrongCount opcode.arity line.operands.length)) := by
  by_cases count : line.operands.length = 1
  · obtain ⟨name, operands⟩ := List.length_eq_one_iff.mp count
    exact .inl ⟨name, operands, by simp [single?, one, Arity.exactly, Arity.admits, operands]⟩
  · refine .inr ⟨fun name operands => count (by rw [operands]; rfl), if_neg ?_⟩
    simp only [one, Arity.exactly, Arity.admits, Bool.and_eq_true, decide_eq_true_eq]
    omega

namespace Sketch

variable {k : Sketch} {d : Program.Draft} {size : Nat} {seen : Listing} {line : Line}

/-- The sketch and the draft have read the same lines. -/
structure Fits (k : Sketch) (d : Program.Draft) (size : Nat) : Prop where
  opening : k.opening = d.opening.map fun o => (o.name, o.declaration)
  labels : k.labels = d.labels
  lists : k.toDirectory.Lists d.regions size

/-- Results that are equally bad, or good and fit each other. -/
abbrev Follows (size : Nat) : Except Fault Sketch → Except Fault (Program.Draft × List Note) → Prop :=
  Agree Eq fun k next => k.Fits next.1 size

theorem Fits.openFunction (fits : k.Fits d size) (address : Nat)
    (command : Opcode.ofCommand? line.command = some .function) :
    ∃ result, k.read? address line = some result ∧ Follows size result (d.read address line) := by
  have opening := fits.opening
  cases opened : d.opening with
  | some o =>
    simp only [opened, Option.map_some] at opening
    simp only [read?, Program.Draft.read, Program.Draft.openFunction, command, opening, opened]
    exact ⟨_, rfl, .error rfl⟩
  | none =>
    simp only [opened, Option.map_none] at opening
    simp only [read?, Program.Draft.read, Program.Draft.openFunction, command, opening, opened]
    rcases single?_eq .function rfl line with ⟨name, operands, taken⟩ | ⟨several, refused⟩
    · rw [taken, operands]
      exact ⟨_, rfl, .ok ⟨rfl, fits.labels, fits.lists⟩⟩
    · rw [refused]
      refine ⟨_, rfl, ?_⟩
      split
      · rename_i name operands
        exact absurd operands (several name)
      · exact .error rfl

theorem Fits.closeFunction (fits : k.Fits d size) (described : d.Describes seen)
    (room : seen.length < size) (command : Opcode.ofCommand? line.command = some .endFunction) :
    ∃ result, k.read? (seen.length + 1) line = some result ∧
      Follows size result (d.read (seen.length + 1) line) := by
  have opening := fits.opening
  cases opened : d.opening with
  | none =>
    simp only [opened, Option.map_none] at opening
    simp only [read?, Program.Draft.read, Program.Draft.closeFunction, command, opening, opened]
    exact ⟨_, rfl, .ok fits⟩
  | some o =>
    simp only [opened, Option.map_some] at opening
    -- The open function was declared at a line before this one.
    obtain ⟨named, _, _⟩ := described.opening o opened
    obtain ⟨first, before⟩ := Listing.opcode?_bound named.opcode
    have lists := fits.lists.closed (r := ⟨o.name, o.declaration, seen.length + 1⟩) first room
    have closes : k.close? ⟨o.name, o.declaration, seen.length + 1⟩ = some (k.closed _) :=
      close?_eq first (Nat.le_succ_of_le before) (fits.lists.size.symm ▸ room)
    simp only [read?, Program.Draft.read, Program.Draft.closeFunction, command, opening, opened, closes]
    exact ⟨_, rfl, .ok ⟨rfl, fits.labels, lists⟩⟩

theorem Fits.addLabel (fits : k.Fits d size) (address : Nat)
    (command : Opcode.ofCommand? line.command = some .lb) :
    ∃ result, k.read? address line = some result ∧ Follows size result (d.read address line) := by
  simp only [read?, Program.Draft.read, Program.Draft.addLabel, command]
  rcases single?_eq .lb rfl line with ⟨name, operands, taken⟩ | ⟨several, refused⟩
  · rw [taken, operands]
    have labels : (name, address) :: k.labels = (name, address) :: d.labels := by rw [fits.labels]
    exact ⟨_, rfl, .ok ⟨fits.opening, labels, fits.lists.relabel _⟩⟩
  · rw [refused]
    refine ⟨_, rfl, ?_⟩
    split
    · rename_i name operands
      exact absurd operands (several name)
    · exact .error rfl

/-- Every line is read without a failed access, as the draft reads it. -/
theorem Fits.read (fits : k.Fits d size) (described : d.Describes seen) (room : seen.length < size)
    (line : Line) :
    ∃ result, k.read? (seen.length + 1) line = some result ∧
      Follows size result (d.read (seen.length + 1) line) := by
  by_cases begins : Opcode.ofCommand? line.command = some .function
  · exact fits.openFunction _ begins
  by_cases ends : Opcode.ofCommand? line.command = some .endFunction
  · exact fits.closeFunction described room ends
  by_cases label : Opcode.ofCommand? line.command = some .lb
  · exact fits.addLabel _ label
  · have skipped : d.read (seen.length + 1) line = .ok (d, []) := by
      unfold Program.Draft.read
      split
      · exact absurd ‹_› begins
      · exact absurd ‹_› ends
      · exact absurd ‹_› label
      · rfl
    refine ⟨.ok k, ?_, skipped ▸ .ok fits⟩
    unfold read?
    split
    · exact absurd ‹_› begins
    · exact absurd ‹_› ends
    · exact absurd ‹_› label
    · rfl

theorem Fits.readAll (fits : k.Fits d size) (faultless : d.Faultless seen) (lines : List Line)
    (room : seen.length + lines.length = size) :
    ∃ result, k.readAll? (seen.length + 1) lines = some result ∧
      Agree Eq (fun k d => k.Fits d size ∧ d.Faultless (seen ++ lines)) result
        (d.readAll (seen.length + 1) lines).2 := by
  induction lines generalizing k d seen with
  | nil => exact ⟨.ok k, rfl, .ok ⟨fits, by simpa using faultless⟩⟩
  | cons line rest ih =>
    rw [List.length_cons] at room
    obtain ⟨result, read, follows⟩ := fits.read faultless.describes (by omega) line
    simp only [readAll?, Program.Draft.readAll, read]
    cases drafted : d.read (seen.length + 1) line with
    | error fault =>
      rw [drafted] at follows
      cases follows with
      | error same => exact ⟨_, rfl, .error (by rw [same])⟩
    | ok outcome =>
      obtain ⟨next, notes⟩ := outcome
      rw [drafted] at follows
      cases follows with
      | ok fits =>
        have length : (seen ++ [line]).length = seen.length + 1 := by simp
        have later := ih fits (faultless.read drafted) (by omega)
        rw [length, List.append_assoc, List.singleton_append] at later
        exact later

end Sketch

/-- The directory stands for the tables of the program: it lists the functions, and the slice of the
lines between the first and the last line of a function is its body. -/
structure Indexes (x : Directory) (p : Program) : Prop where
  labels : x.labels = p.labels
  lists : x.Lists p.regions p.lines.size
  body : ∀ r ∈ x.functions, body? p.lines.toList r = some (p.body r)

theorem body?_eq {p : Program} {r : Region} (spans : r.Spans p.lines.toList) :
    body? p.lines.toList r = some (p.body r) := by
  have ordered := spans.ordered
  have within := spans.close_le
  have last : 0 < r.close := by omega
  have sliced : slice? p.lines.toList r.declaration (r.close - 1) = some (p.body r) :=
    if_pos ⟨by omega, by omega⟩
  simp [body?, minus?_one last, sliced]

/-- A sketch of all lines becomes a directory, or the line is found whose function is left open. -/
theorem Sketch.Fits.finish {k : Sketch} {d : Program.Draft} {l : Listing} (fits : k.Fits d l.length)
    (faultless : d.Faultless l) :
    ∃ verdict, k.finish? l = some verdict ∧ Agree Eq Indexes verdict (d.finish l) := by
  have opening := fits.opening
  cases opened : d.opening with
  | none =>
    simp only [opened, Option.map_none] at opening
    simp only [finish?, Program.Draft.finish, opening, opened]
    refine ⟨_, rfl, .ok ⟨fits.labels, by simpa using fits.lists, fun r member => body?_eq ?_⟩⟩
    rw [fits.lists.functions, List.mem_reverse] at member
    simpa using faultless.describes.spans r member
  | some o =>
    simp only [opened, Option.map_some] at opening
    obtain ⟨line, found, _, number⟩ := faultless.kept o opened
    have first := (Listing.line?_bound found).1
    have declared : l[o.declaration - 1]? = some line := by
      rw [Listing.line?, if_neg (Nat.ne_of_gt first)] at found
      exact found
    simp only [Program.Draft.finish, opened]
    refine ⟨_, ?_, .error rfl⟩
    simp [finish?, opening, minus?_one first, declared, number]

/-- Every listing is compiled without a failed access, to a directory that stands for its program or to
what is wrong with it. -/
theorem compile?_agrees (l : Listing) :
    ∃ verdict, compile? l = some verdict ∧ Agree Eq Indexes verdict (Program.compile l).2 := by
  have fits : Sketch.Fits ⟨blank l.length, none⟩ Program.Draft.empty l.length :=
    ⟨rfl, rfl, lists_blank l.length⟩
  obtain ⟨result, read, follows⟩ := fits.readAll Program.Draft.empty_faultless l (by simp)
  simp only [List.length_nil, Nat.zero_add, List.nil_append] at read follows
  simp only [compile?, read, Program.compile, Option.bind_eq_bind, Option.bind_some]
  generalize (Program.Draft.empty.readAll 1 l).2 = drafted at follows
  cases follows with
  | error same => exact ⟨_, rfl, .error same⟩
  | ok both => exact both.1.finish both.2

end Directory

end RegisterMachine
