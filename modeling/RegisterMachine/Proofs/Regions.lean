import RegisterMachine.Program

/-!
What compiling leaves in the tables. A function reaches from a `function` line to the first
`endfunction` line after it, functions do not overlap, every `function` line begins one, and the
labels are exactly the addresses of the `lb` lines.
-/

namespace RegisterMachine

namespace Listing

/-- The line at an address. -/
def line? (l : Listing) (address : Nat) : Option Line :=
  if address = 0 then none else l[address - 1]?

/-- The opcode of the line at an address, if its command is known. -/
def opcode? (l : Listing) (address : Nat) : Option Opcode :=
  (line? l address).bind fun line => Opcode.ofCommand? line.command

/-- The line at an address has this opcode and one operand, the given name. -/
def Names (l : Listing) (opcode : Opcode) (name : String) (address : Nat) : Prop :=
  ∃ line, line? l address = some line ∧ Opcode.ofCommand? line.command = some opcode ∧
    line.operands = [name]

theorem line?_bound {l : Listing} {address : Nat} {line : Line} (h : line? l address = some line) :
    0 < address ∧ address ≤ l.length := by
  unfold line? at h
  split at h
  · cases h
  · have := (List.getElem?_eq_some_iff.mp h).1
    omega

theorem mem_of_line? {l : Listing} {address : Nat} {line : Line} (h : line? l address = some line) :
    line ∈ l := by
  unfold line? at h
  split at h
  · cases h
  · exact List.mem_of_getElem? h

theorem line?_append_old {l : Listing} {address : Nat} (old : address ≤ l.length) (rest : Listing) :
    line? (l ++ rest) address = line? l address := by
  unfold line?
  split
  · rfl
  · exact List.getElem?_append_left (by omega)

theorem line?_append_new (l : Listing) (line : Line) :
    line? (l ++ [line]) (l.length + 1) = some line := by
  simp [line?]

theorem opcode?_bound {l : Listing} {address : Nat} {opcode : Opcode}
    (h : opcode? l address = some opcode) : 0 < address ∧ address ≤ l.length := by
  obtain ⟨line, found, _⟩ := Option.bind_eq_some_iff.mp h
  exact line?_bound found

theorem opcode?_append_old {l : Listing} {address : Nat} (old : address ≤ l.length)
    (rest : Listing) : opcode? (l ++ rest) address = opcode? l address := by
  simp only [opcode?, line?_append_old old]

theorem opcode?_append_new (l : Listing) (line : Line) :
    opcode? (l ++ [line]) (l.length + 1) = Opcode.ofCommand? line.command := by
  simp [opcode?, line?_append_new]

theorem opcode?_append_some {l : Listing} {address : Nat} {opcode : Opcode}
    (h : opcode? l address = some opcode) (rest : Listing) :
    opcode? (l ++ rest) address = some opcode := by
  rw [opcode?_append_old (opcode?_bound h).2, h]

/-- A line of a longer listing is an old one or the new one. -/
theorem opcode?_append_cases {l : Listing} {line : Line} {address : Nat} {opcode : Opcode}
    (h : opcode? (l ++ [line]) address = some opcode) :
    opcode? l address = some opcode ∨
      address = l.length + 1 ∧ Opcode.ofCommand? line.command = some opcode := by
  have bound := (opcode?_bound h).2
  simp only [List.length_append, List.length_singleton] at bound
  by_cases old : address ≤ l.length
  · exact .inl (opcode?_append_old old [line] ▸ h)
  · have new : address = l.length + 1 := by omega
    subst new
    exact .inr ⟨rfl, opcode?_append_new l line ▸ h⟩

theorem Names.opcode {l : Listing} {opcode : Opcode} {name : String} {address : Nat}
    (h : Names l opcode name address) : opcode? l address = some opcode := by
  obtain ⟨line, found, command, _⟩ := h
  simp [opcode?, found, command]

theorem Names.append {l : Listing} {opcode : Opcode} {name : String} {address : Nat}
    (h : Names l opcode name address) (rest : Listing) : Names (l ++ rest) opcode name address := by
  obtain ⟨line, found, facts⟩ := h
  exact ⟨line, by rw [line?_append_old (line?_bound found).2, found], facts⟩

theorem names_append_new {l : Listing} {line : Line} {opcode : Opcode} {name : String}
    (command : Opcode.ofCommand? line.command = some opcode) (operands : line.operands = [name]) :
    Names (l ++ [line]) opcode name (l.length + 1) :=
  ⟨line, line?_append_new l line, command, operands⟩

theorem names_append_cases {l : Listing} {line : Line} {opcode : Opcode} {name : String}
    {address : Nat} (h : Names (l ++ [line]) opcode name address) :
    Names l opcode name address ∨
      address = l.length + 1 ∧ Opcode.ofCommand? line.command = some opcode ∧
        line.operands = [name] := by
  obtain ⟨found, at_address, command, operands⟩ := h
  have bound := (line?_bound at_address).2
  simp only [List.length_append, List.length_singleton] at bound
  by_cases old : address ≤ l.length
  · rw [line?_append_old old] at at_address
    exact .inl ⟨found, at_address, command, operands⟩
  · have new : address = l.length + 1 := by omega
    subst new
    rw [line?_append_new] at at_address
    cases at_address
    exact .inr ⟨rfl, command, operands⟩

end Listing

/-- A line that begins or ends a function stands at the address. -/
def Listing.Marks (l : Listing) (address : Nat) : Prop :=
  opcode? l address = some .function ∨ opcode? l address = some .endFunction

/-- A function's lines: from the `function` line that names it to the first `endfunction` line
after that, with no such line between. -/
structure Region.Spans (r : Region) (l : Listing) : Prop where
  declared : Listing.Names l .function r.name r.declaration
  closed : Listing.opcode? l r.close = some .endFunction
  ordered : r.declaration < r.close
  unmarked : ∀ a, r.declaration < a → a < r.close → ¬ Listing.Marks l a

theorem Listing.marks_append_cases {l : Listing} {line : Line} {address : Nat}
    (h : Marks (l ++ [line]) address) :
    Marks l address ∨ address = l.length + 1 ∧
      (Opcode.ofCommand? line.command = some .function ∨
        Opcode.ofCommand? line.command = some .endFunction) := by
  rcases h with h | h <;> rcases opcode?_append_cases h with old | ⟨new, command⟩
  · exact .inl (.inl old)
  · exact .inr ⟨new, .inl command⟩
  · exact .inl (.inr old)
  · exact .inr ⟨new, .inr command⟩

theorem Region.Spans.close_le {r : Region} {l : Listing} (h : r.Spans l) : r.close ≤ l.length :=
  (Listing.opcode?_bound h.closed).2

theorem Region.Spans.append {r : Region} {l : Listing} (h : r.Spans l) (line : Line) :
    r.Spans (l ++ [line]) where
  declared := h.declared.append [line]
  closed := Listing.opcode?_append_some h.closed [line]
  ordered := h.ordered
  unmarked := by
    intro a after before marked
    have inside := h.close_le
    rcases Listing.marks_append_cases marked with old | ⟨new, _⟩
    · exact h.unmarked a after before old
    · omega

/-- What is computed from an outcome comes from a value. -/
theorem ok_of_computed {ε α β : Type} {outcome : Except ε α} {f : α → β} {result : β}
    (computed : outcome.toOption.map f = some result) : ∃ a, outcome = .ok a ∧ f a = result := by
  cases outcome with
  | error => cases computed
  | ok a => exact ⟨a, rfl, Option.some.inj computed⟩

theorem Table.mem_of_find? {α : Type} {t : Table α} {name : String} {value : α}
    (h : t.find? name = some value) : (name, value) ∈ t := by
  induction t with
  | nil => cases h
  | cons entry rest ih =>
    obtain ⟨key, old⟩ := entry
    simp only [Table.find?] at h
    split at h
    · rename_i same
      cases h
      subst same
      exact List.mem_cons_self
    · exact List.mem_cons_of_mem _ (ih h)

namespace Program

/-- The tables of a draft describe the lines read so far. -/
structure Draft.Describes (d : Draft) (seen : Listing) : Prop where
  spans : ∀ r ∈ d.regions, r.Spans seen
  apart : d.regions.Pairwise fun later earlier => earlier.close < later.declaration
  begun : ∀ a, Listing.opcode? seen a = some .function →
    (∃ r ∈ d.regions, r.declaration = a) ∨ ∃ o, d.opening = some o ∧ o.declaration = a
  opening : ∀ o, d.opening = some o →
    Listing.Names seen .function o.name o.declaration ∧ (∀ r ∈ d.regions, r.close < o.declaration) ∧
      ∀ a, o.declaration < a → ¬ Listing.Marks seen a
  labels : ∀ name a, (name, a) ∈ d.labels ↔ Listing.Names seen .lb name a
  latest : d.labels.Pairwise fun later earlier => earlier.2 < later.2

theorem Draft.empty_describes : Draft.empty.Describes [] where
  spans := by simp [Draft.empty]
  apart := .nil
  begun := by simp [Listing.opcode?, Listing.line?]
  opening := by simp [Draft.empty]
  labels := by
    intro name a
    constructor
    · simp [Draft.empty]
    · rintro ⟨line, found, _⟩
      simp [Listing.line?] at found
  latest := .nil

/-- A line that is no label leaves the labels as they are. -/
theorem labels_append {l : Listing} {labels : Table Nat} {line : Line}
    (h : ∀ name a, (name, a) ∈ labels ↔ Listing.Names l .lb name a)
    (other : Opcode.ofCommand? line.command ≠ some .lb) (name : String) (a : Nat) :
    (name, a) ∈ labels ↔ Listing.Names (l ++ [line]) .lb name a := by
  rw [h]
  constructor
  · intro named
    exact named.append [line]
  · intro named
    rcases Listing.names_append_cases named with old | ⟨_, command, _⟩
    · exact old
    · exact absurd command other

theorem Draft.Describes.begun_append {d : Draft} {seen : Listing} {line : Line} (h : d.Describes seen)
    (noFunction : Opcode.ofCommand? line.command ≠ some .function) {a : Nat}
    (marked : Listing.opcode? (seen ++ [line]) a = some .function) :
    (∃ r ∈ d.regions, r.declaration = a) ∨ ∃ o, d.opening = some o ∧ o.declaration = a := by
  rcases Listing.opcode?_append_cases marked with old | ⟨_, command⟩
  · exact h.begun a old
  · exact absurd command noFunction

/-- A function that is open stays open at a line that neither begins nor ends one. -/
theorem Draft.Describes.opening_append {d : Draft} {seen : Listing} {line : Line} {o : Opening}
    (h : d.Describes seen) (opened : d.opening = some o)
    (noFunction : Opcode.ofCommand? line.command ≠ some .function)
    (noEnd : Opcode.ofCommand? line.command ≠ some .endFunction) :
    Listing.Names (seen ++ [line]) .function o.name o.declaration ∧
      (∀ r ∈ d.regions, r.close < o.declaration) ∧
      ∀ a, o.declaration < a → ¬ Listing.Marks (seen ++ [line]) a := by
  obtain ⟨named, before, unmarked⟩ := h.opening o opened
  refine ⟨named.append [line], before, fun a after marked => ?_⟩
  rcases Listing.marks_append_cases marked with old | ⟨_, command | command⟩
  · exact unmarked a after old
  · exact noFunction command
  · exact noEnd command

theorem Draft.Describes.skip {d : Draft} {seen : Listing} {line : Line} (h : d.Describes seen)
    (noFunction : Opcode.ofCommand? line.command ≠ some .function)
    (noEnd : Opcode.ofCommand? line.command ≠ some .endFunction ∨ d.opening = none)
    (noLabel : Opcode.ofCommand? line.command ≠ some .lb) : d.Describes (seen ++ [line]) where
  spans := fun r member => (h.spans r member).append line
  apart := h.apart
  begun := fun _ marked => h.begun_append noFunction marked
  opening := by
    intro o opened
    rcases noEnd with other | shut
    · exact h.opening_append opened noFunction other
    · rw [shut] at opened
      cases opened
  labels := labels_append h.labels noLabel
  latest := h.latest

theorem Draft.Describes.openFunction {d next : Draft} {seen : Listing} {line : Line}
    (h : d.Describes seen) (command : Opcode.ofCommand? line.command = some .function)
    (read : d.openFunction (seen.length + 1) line = .ok next) : next.Describes (seen ++ [line]) := by
  unfold Draft.openFunction at read
  split at read
  · cases read
  · rename_i shut
    split at read
    · rename_i name operands
      cases read
      refine ⟨fun r member => (h.spans r member).append line, h.apart, ?_, ?_, ?_, h.latest⟩
      · intro a marked
        rcases Listing.opcode?_append_cases marked with old | ⟨new, _⟩
        · rcases h.begun a old with known | ⟨o, opened, _⟩
          · exact .inl known
          · rw [shut] at opened
            cases opened
        · exact .inr ⟨_, rfl, new.symm⟩
      · rintro o ⟨⟩
        refine ⟨Listing.names_append_new command operands, fun r member => ?_, fun a after marked => ?_⟩
        · have := (h.spans r member).close_le
          dsimp only
          omega
        · have bound := marked.elim (fun m => (Listing.opcode?_bound m).2)
            (fun m => (Listing.opcode?_bound m).2)
          simp only [List.length_append, List.length_singleton] at bound
          dsimp only at after
          omega
      · exact labels_append h.labels (by rw [command]; decide)
    · cases read

theorem Draft.Describes.closeFunction {d : Draft} {seen : Listing} {line : Line}
    (h : d.Describes seen) (command : Opcode.ofCommand? line.command = some .endFunction) :
    (d.closeFunction (seen.length + 1) line).1.Describes (seen ++ [line]) := by
  unfold Draft.closeFunction
  split
  · rename_i shut
    exact h.skip (by rw [command]; decide) (.inr shut) (by rw [command]; decide)
  · rename_i o opened
    obtain ⟨named, before, unmarked⟩ := h.opening o opened
    have declared := (Listing.opcode?_bound named.opcode).2
    -- The new function ends at the line just read, so what is known of the open one is enough.
    have spans : Region.Spans ⟨o.name, o.declaration, seen.length + 1⟩ (seen ++ [line]) := by
      refine ⟨named.append [line], ?_, by dsimp only; omega, ?_⟩
      · rw [Listing.opcode?_append_new, command]
      intro a after inside marked
      rcases Listing.marks_append_cases marked with old | ⟨new, _⟩
      · exact unmarked a after old
      · dsimp only at inside
        omega
    refine ⟨?_, List.pairwise_cons.mpr ⟨before, h.apart⟩, ?_, ?_, ?_, h.latest⟩
    · intro r member
      rcases List.mem_cons.mp member with rfl | member
      · exact spans
      · exact (h.spans r member).append line
    · intro a marked
      rcases Listing.opcode?_append_cases marked with old | ⟨_, other⟩
      · rcases h.begun a old with ⟨r, member, at_a⟩ | ⟨o', opened', at_a⟩
        · exact .inl ⟨r, List.mem_cons_of_mem _ member, at_a⟩
        · rw [opened] at opened'
          cases opened'
          exact .inl ⟨_, List.mem_cons_self, at_a⟩
      · rw [command] at other
        cases other
    · rintro o' ⟨⟩
    · exact labels_append h.labels (by rw [command]; decide)

theorem Draft.Describes.addLabel {d next : Draft} {seen : Listing} {line : Line} {notes : List Note}
    (h : d.Describes seen) (command : Opcode.ofCommand? line.command = some .lb)
    (read : d.addLabel (seen.length + 1) line = .ok (next, notes)) :
    next.Describes (seen ++ [line]) := by
  unfold Draft.addLabel at read
  split at read
  · rename_i name operands
    cases read
    have noFunction : Opcode.ofCommand? line.command ≠ some .function := by rw [command]; decide
    have noEnd : Opcode.ofCommand? line.command ≠ some .endFunction := by rw [command]; decide
    refine ⟨fun r member => (h.spans r member).append line, h.apart,
      fun _ marked => h.begun_append noFunction marked,
      fun _ opened => h.opening_append opened noFunction noEnd, ?_, ?_⟩
    · intro label a
      constructor
      · intro member
        rcases List.mem_cons.mp member with same | old
        · cases same
          exact Listing.names_append_new command operands
        · exact ((h.labels label a).mp old).append [line]
      · intro named
        rcases Listing.names_append_cases named with old | ⟨new, _, same⟩
        · exact List.mem_cons_of_mem _ ((h.labels label a).mpr old)
        · rw [operands] at same
          cases same
          subst new
          exact List.mem_cons_self
    · refine List.pairwise_cons.mpr ⟨fun entry member => ?_, h.latest⟩
      have bound := (Listing.opcode?_bound ((h.labels entry.1 entry.2).mp member).opcode).2
      dsimp only
      omega
  · cases read

theorem Draft.Describes.read {d next : Draft} {seen : Listing} {line : Line} {notes : List Note}
    (h : d.Describes seen) (read : d.read (seen.length + 1) line = .ok (next, notes)) :
    next.Describes (seen ++ [line]) := by
  unfold Draft.read at read
  split at read
  · rename_i command
    cases opened : d.openFunction (seen.length + 1) line with
    | error fault =>
      rw [opened] at read
      cases read
    | ok draft =>
      rw [opened] at read
      cases read
      exact h.openFunction command opened
  · rename_i command
    have closed := h.closeFunction command
    rw [Except.ok.inj read] at closed
    exact closed
  · rename_i command
    exact h.addLabel command read
  · rename_i noFunction noEnd noLabel
    cases read
    exact h.skip noFunction (.inl noEnd) noLabel

/-- What one more line that is read keeps, lines that are read in order keep. -/
theorem Draft.readAll_keeps {P : Draft → Listing → Prop}
    (keeps : ∀ {d next : Draft} {seen : Listing} {line : Line} {notes : List Note}, P d seen →
      d.read (seen.length + 1) line = .ok (next, notes) → P next (seen ++ [line]))
    {d final : Draft} {seen : Listing} {lines : List Line} (h : P d seen)
    (read : (d.readAll (seen.length + 1) lines).2 = .ok final) : P final (seen ++ lines) := by
  induction lines generalizing d seen with
  | nil =>
    cases read
    simpa using h
  | cons line rest ih =>
    simp only [Draft.readAll] at read
    cases first : d.read (seen.length + 1) line with
    | error fault =>
      rw [first] at read
      cases read
    | ok result =>
      obtain ⟨next, notes⟩ := result
      rw [first] at read
      have rest_read : (next.readAll ((seen ++ [line]).length + 1) rest).2 = .ok final := by
        simpa using read
      simpa using ih (keeps h first) rest_read

/-- What holds of the tables of every compiled program. -/
structure Tidy (p : Program) : Prop where
  spans : ∀ r ∈ p.regions, r.Spans p.lines.toList
  apart : p.regions.Pairwise fun later earlier => earlier.close < later.declaration
  begun : ∀ a, Listing.opcode? p.lines.toList a = some .function → ∃ r ∈ p.regions, r.declaration = a
  labels : ∀ name a, (name, a) ∈ p.labels ↔ Listing.Names p.lines.toList .lb name a
  latest : p.labels.Pairwise fun later earlier => earlier.2 < later.2

theorem tidy_of_compile {listing : Listing} {p : Program} (compiled : (compile listing).2 = .ok p) :
    p.lines.toList = listing ∧ p.Tidy := by
  simp only [compile] at compiled
  cases read : (Draft.empty.readAll 1 listing).2 with
  | error diagnostic =>
    rw [read] at compiled
    cases compiled
  | ok draft =>
    rw [read] at compiled
    have h : draft.Describes ([] ++ listing) :=
      Draft.readAll_keeps Draft.Describes.read Draft.empty_describes read
    rw [List.nil_append] at h
    simp only [Except.bind, Draft.finish] at compiled
    split at compiled
    · cases compiled
    · rename_i shut
      cases compiled
      refine ⟨by simp, by simpa using h.spans, h.apart, ?_, by simpa using h.labels, h.latest⟩
      intro a marked
      rcases h.begun a (by simpa using marked) with known | ⟨o, opened, _⟩
      · exact known
      · rw [shut] at opened
        cases opened

theorem line?_eq (p : Program) (address : Nat) :
    p.line? address = Listing.line? p.lines.toList address := by
  simp [line?, Listing.line?]

/-- The opcode of the line at an address, if its command is known. -/
def opcode? (p : Program) (address : Nat) : Option Opcode :=
  (p.line? address).bind fun line => Opcode.ofCommand? line.command

theorem opcode?_eq (p : Program) (address : Nat) :
    p.opcode? address = Listing.opcode? p.lines.toList address := by
  simp only [opcode?, Listing.opcode?, line?_eq]

theorem mem_of_function? {p : Program} {name : String} {r : Region}
    (h : p.function? name = some r) : r ∈ p.regions ∧ r.name = name :=
  ⟨List.mem_of_find?_eq_some h, by simpa using List.find?_some h⟩

theorem mem_of_owner? {p : Program} {address : Nat} {r : Region} (h : p.owner? address = some r) :
    r ∈ p.regions ∧ r.declaration ≤ address ∧ address ≤ r.close :=
  ⟨List.mem_of_find?_eq_some h, by simpa [Region.holds] using List.find?_some h⟩

namespace Tidy

variable {p : Program}

theorem label_names (tidy : p.Tidy) {name : String} {address : Nat}
    (h : p.label? name = some address) : p.opcode? address = some .lb := by
  rw [opcode?_eq]
  exact ((tidy.labels name address).mp (Table.mem_of_find? h)).opcode

/-- Functions that share an address are the same. -/
theorem region_eq (tidy : p.Tidy) {r r' : Region} (member : r ∈ p.regions)
    (member' : r' ∈ p.regions) (address : Nat) (inside : r.declaration ≤ address ∧ address ≤ r.close)
    (inside' : r'.declaration ≤ address ∧ address ≤ r'.close) : r = r' := by
  have meet : ∀ x ∈ p.regions, ∀ y ∈ p.regions,
      x.declaration ≤ address ∧ address ≤ x.close →
        y.declaration ≤ address ∧ address ≤ y.close → x = y := by
    apply List.Pairwise.forall_of_forall_of_flip
    · intro x _ _ _
      rfl
    · refine tidy.apart.imp fun {later earlier} apart inLater inEarlier => ?_
      omega
    · refine tidy.apart.imp fun {later earlier} apart inEarlier inLater => ?_
      omega
  exact meet r member r' member' inside inside'

theorem owner?_eq_some (tidy : p.Tidy) {r : Region} (member : r ∈ p.regions) (address : Nat)
    (inside : r.declaration ≤ address ∧ address ≤ r.close) : p.owner? address = some r := by
  cases found : p.owner? address with
  | none =>
    have := List.find?_eq_none.mp found r member
    simp [Region.holds, inside] at this
  | some other =>
    obtain ⟨known, inOther⟩ := mem_of_owner? found
    rw [tidy.region_eq known member address inOther inside]

end Tidy

end Program

end RegisterMachine
