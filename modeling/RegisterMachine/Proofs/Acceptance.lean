import RegisterMachine.Proofs.Tables

/-!
Which listings compile, and what is said about the others. A listing is well formed if no function
begins while another is open, every `function` and `lb` line has one operand, and no function is left
open. `Blames` gives the one diagnostic of a listing that is not: the first line that breaks the rules
of nesting and operands, or else the function that is left open. `compile_verdict` says that compiling
accepts and blames exactly so.
-/

namespace RegisterMachine

namespace Listing

/-- A `function` line stands where a function is open. -/
def Nested (l : Listing) (address : Nat) : Prop :=
  opcode? l address = some .function ∧ ∃ d, Open l d address

/-- A `function` or `lb` line has some other number of operands than one. -/
def Miscounted (l : Listing) (address : Nat) : Prop :=
  ∃ line, line? l address = some line ∧
    (Opcode.ofCommand? line.command = some .function ∨ Opcode.ofCommand? line.command = some .lb) ∧
    line.operands.length ≠ 1

def Offends (l : Listing) (address : Nat) : Prop := Nested l address ∨ Miscounted l address

structure WellFormed (l : Listing) : Prop where
  unnested : ∀ a, ¬ Nested l a
  counted : ∀ a, ¬ Miscounted l a
  shut : ∀ d, ¬ Open l d (l.length + 1)

/-- What is said about a listing that is not well formed. -/
inductive Blames (l : Listing) : Diagnostic → Prop
  | nested (a d : Nat) (line : Line) (name : String) (first : ∀ b, b < a → ¬ Offends l b)
      (found : line? l a = some line) (command : Opcode.ofCommand? line.command = some .function)
      (opened : Open l d a) (named : Names l .function name d) :
      Blames l ((Fault.nestedFunction name).report (some line.number))
  | miscounted (a : Nat) (line : Line) (first : ∀ b, b < a → ¬ Offends l b)
      (found : line? l a = some line) (unnested : ¬ Nested l a) (miscounted : Miscounted l a) :
      Blames l ((Fault.wrongCount (.exactly 1) line.operands.length).report (some line.number))
  | unclosed (d : Nat) (line : Line) (name : String) (clean : ∀ b, ¬ Offends l b)
      (opened : Open l d (l.length + 1)) (found : line? l d = some line)
      (operands : line.operands = [name]) :
      Blames l ((Fault.unclosedFunction name).report (some line.number))

/-- Whether a function is open depends on the lines before only. -/
theorem open_append {l : Listing} {d address : Nat} (old : address ≤ l.length + 1) (rest : Listing) :
    Open (l ++ rest) d address ↔ Open l d address := by
  constructor
  · rintro ⟨begins, before, unended⟩
    have declared : d ≤ l.length := by omega
    refine ⟨opcode?_append_old declared rest ▸ begins, before, fun a after inside => ?_⟩
    have listed : a ≤ l.length := by omega
    exact opcode?_append_old listed rest ▸ unended a after inside
  · rintro ⟨begins, before, unended⟩
    refine ⟨opcode?_append_some begins rest, before, fun a after inside => ?_⟩
    rw [opcode?_append_old (by omega)]
    exact unended a after inside

theorem nested_append {l : Listing} {address : Nat} (old : address ≤ l.length) (rest : Listing) :
    Nested (l ++ rest) address ↔ Nested l address := by
  simp only [Nested, opcode?_append_old old, open_append (Nat.le_succ_of_le old)]

theorem miscounted_append {l : Listing} {address : Nat} (old : address ≤ l.length) (rest : Listing) :
    Miscounted (l ++ rest) address ↔ Miscounted l address := by
  simp only [Miscounted, line?_append_old old]

theorem offends_append {l : Listing} {address : Nat} (old : address ≤ l.length) (rest : Listing) :
    Offends (l ++ rest) address ↔ Offends l address := by
  simp only [Offends, nested_append old, miscounted_append old]

/-- The new line of a longer listing is nested if a function is open at the end of the old lines. -/
theorem nested_append_new (l : Listing) (line : Line) (rest : Listing) :
    Nested (l ++ line :: rest) (l.length + 1) ↔
      Opcode.ofCommand? line.command = some .function ∧ ∃ d, Open l d (l.length + 1) := by
  rw [List.append_cons, nested_append (by simp)]
  simp only [Nested, opcode?_append_new, open_append (Nat.le_refl _)]

theorem line?_append_at (l : Listing) (line : Line) (rest : Listing) :
    line? (l ++ line :: rest) (l.length + 1) = some line := by
  rw [List.append_cons, line?_append_old (by simp), line?_append_new]

theorem offends_bound {l : Listing} {address : Nat} (offends : Offends l address) :
    0 < address ∧ address ≤ l.length := by
  rcases offends with ⟨begins, _⟩ | ⟨line, found, _⟩
  · exact opcode?_bound begins
  · exact line?_bound found

/-- Where no line before offends, at most one function is open. -/
theorem open_unique {l : Listing} {d d' address : Nat} (first : ∀ b, b < address → ¬ Offends l b)
    (opened : Open l d address) (opened' : Open l d' address) : d = d' := by
  have nests {x y : Nat} (outer : Open l x address) (inner : Open l y address) (lt : x < y) :
      Offends l y := by
    refine .inl ⟨inner.1, x, outer.1, lt, fun a after before => ?_⟩
    exact outer.2.2 a after (Nat.lt_trans before inner.2.1)
  rcases Nat.lt_trichotomy d d' with lt | same | gt
  · exact absurd (nests opened opened' lt) (first d' opened'.2.1)
  · exact same
  · exact absurd (nests opened' opened gt) (first d opened.2.1)

/-- Two lines that offend, with none that offends before either, are the same. -/
theorem first_unique {l : Listing} {a b : Nat} (first : ∀ c, c < a → ¬ Offends l c)
    (first' : ∀ c, c < b → ¬ Offends l c) (offends : Offends l a) (offends' : Offends l b) : a = b := by
  rcases Nat.lt_trichotomy a b with lt | same | gt
  · exact absurd offends (first' a lt)
  · exact same
  · exact absurd offends' (first b gt)

theorem Blames.unique {l : Listing} {x y : Diagnostic} (blames : Blames l x) (blames' : Blames l y) :
    x = y := by
  have nests {a d : Nat} {line : Line} (found : line? l a = some line)
      (command : Opcode.ofCommand? line.command = some .function) (opened : Open l d a) :
      Nested l a := ⟨by simp [opcode?, found, command], d, opened⟩
  cases blames with
  | nested a d line name first found command opened named =>
    have nested := nests found command opened
    cases blames' with
    | nested a' d' line' name' first' found' command' opened' named' =>
      obtain rfl := first_unique first first' (.inl nested) (.inl (nests found' command' opened'))
      obtain rfl := open_unique first opened opened'
      obtain rfl := named.unique named'
      rw [Option.some.inj (found.symm.trans found')]
    | miscounted a' line' first' found' unnested' miscounted' =>
      obtain rfl := first_unique first first' (.inl nested) (.inr miscounted')
      exact absurd nested unnested'
    | unclosed d' line' name' clean' => exact absurd (.inl nested) (clean' a)
  | miscounted a line first found unnested miscounted =>
    cases blames' with
    | nested a' d' line' name' first' found' command' opened' =>
      have nested := nests found' command' opened'
      obtain rfl := first_unique first first' (.inr miscounted) (.inl nested)
      exact absurd nested unnested
    | miscounted a' line' first' found' unnested' miscounted' =>
      obtain rfl := first_unique first first' (.inr miscounted) (.inr miscounted')
      rw [Option.some.inj (found.symm.trans found')]
    | unclosed d' line' name' clean' => exact absurd (.inr miscounted) (clean' a)
  | unclosed d line name clean opened found operands =>
    cases blames' with
    | nested a' d' line' name' first' found' command' opened' =>
      exact absurd (.inl (nests found' command' opened')) (clean a')
    | miscounted a' line' first' found' unnested' miscounted' =>
      exact absurd (.inr miscounted') (clean a')
    | unclosed d' line' name' clean' opened' found' operands' =>
      obtain rfl := open_unique (fun b _ => clean b) opened opened'
      obtain rfl := Option.some.inj (found.symm.trans found')
      rw [operands] at operands'
      rw [(List.cons.inj operands').1]

theorem WellFormed.unblamed {l : Listing} (wellFormed : WellFormed l) {diagnostic : Diagnostic} :
    ¬ Blames l diagnostic := by
  rintro (⟨a, d, line, name, _, found, command, opened, _⟩ | ⟨a, line, _, _, _, miscounted⟩ |
    ⟨d, line, name, _, opened, _, _⟩)
  · exact wellFormed.unnested a ⟨by simp [opcode?, found, command], d, opened⟩
  · exact wellFormed.counted a miscounted
  · exact wellFormed.shut d opened

end Listing

namespace Program

namespace Draft

/-- A line is refused for standing in an open function, or for its operands. -/
theorem read_error {d : Draft} {address : Nat} {line : Line} {fault : Fault}
    (read : d.read address line = .error fault) :
    (∃ o, d.opening = some o ∧ Opcode.ofCommand? line.command = some .function ∧
        fault = .nestedFunction o.name) ∨
      (Opcode.ofCommand? line.command = some .function ∧ d.opening = none ∨
          Opcode.ofCommand? line.command = some .lb) ∧
        line.operands.length ≠ 1 ∧ fault = .wrongCount (.exactly 1) line.operands.length := by
  unfold Draft.read at read
  split at read
  · rename_i command
    cases opening : d.opening with
    | some o =>
      simp only [openFunction, opening, Except.map, Except.error.injEq] at read
      exact .inl ⟨o, rfl, command, read.symm⟩
    | none =>
      simp only [openFunction, opening] at read
      split at read
      · cases read
      · rename_i several
        cases read
        refine .inr ⟨.inl ⟨command, rfl⟩, fun one => ?_, rfl⟩
        obtain ⟨name, operands⟩ := List.length_eq_one_iff.mp one
        exact several name operands
  · cases read
  · rename_i command
    unfold addLabel at read
    split at read
    · cases read
    · rename_i several
      cases read
      refine .inr ⟨.inr command, fun one => ?_, rfl⟩
      obtain ⟨name, operands⟩ := List.length_eq_one_iff.mp one
      exact several name operands
  · cases read

/-- A line that is read keeps the rules, and the function that is open then was open before or is
declared by the line. -/
theorem read_ok {d next : Draft} {address : Nat} {line : Line} {notes : List Note}
    (read : d.read address line = .ok (next, notes)) :
    (Opcode.ofCommand? line.command = some .function → d.opening = none) ∧
      (Opcode.ofCommand? line.command = some .function ∨
        Opcode.ofCommand? line.command = some .lb → line.operands.length = 1) ∧
      ∀ o, next.opening = some o → d.opening = some o ∨
        line.operands = [o.name] ∧ o.declaration = address ∧ o.line = line.number := by
  unfold Draft.read at read
  split at read
  · rename_i command
    cases opening : d.opening with
    | some o =>
      simp only [openFunction, opening, Except.map] at read
      cases read
    | none =>
      simp only [openFunction, opening] at read
      split at read
      · rename_i name operands
        cases read
        refine ⟨fun _ => rfl, fun _ => by simp [operands], ?_⟩
        rintro o ⟨⟩
        exact .inr ⟨operands, rfl, rfl⟩
      · cases read
  · rename_i command
    refine ⟨by simp [command], by simp [command], fun o opened => .inl ?_⟩
    have same : next = (d.closeFunction address line).1 := by rw [Except.ok.inj read]
    rw [same] at opened
    cases opening : d.opening with
    | none => simp [closeFunction, opening] at opened
    | some o => simp [closeFunction, opening] at opened
  · rename_i command
    unfold addLabel at read
    split at read
    · rename_i name operands
      cases read
      exact ⟨by simp [command], fun _ => by simp [operands], fun o opened => .inl opened⟩
    · cases read
  · rename_i noFunction noEnd noLabel
    cases read
    refine ⟨fun command => absurd command noFunction, ?_, fun o opened => .inl opened⟩
    rintro (command | command)
    · exact absurd command noFunction
    · exact absurd command noLabel

/-- The function that is open after some lines is the one whose opening is kept. -/
theorem Describes.open_iff {d : Draft} {seen : Listing} (h : d.Describes seen) (a : Nat) :
    Listing.Open seen a (seen.length + 1) ↔ ∃ o, d.opening = some o ∧ o.declaration = a := by
  constructor
  · rintro ⟨begins, _, unended⟩
    rcases h.begun a begins with ⟨r, member, rfl⟩ | opening
    · have spans := h.spans r member
      have inside : r.close < seen.length + 1 := Nat.lt_succ_of_le spans.close_le
      exact absurd spans.closed (unended r.close spans.ordered inside)
    · exact opening
  · rintro ⟨o, opened, rfl⟩
    obtain ⟨named, _, unmarked⟩ := h.opening o opened
    have declared := (Listing.opcode?_bound named.opcode).2
    exact ⟨named.opcode, by omega, fun b after _ ends => unmarked b after (.inr ends)⟩

/-- The lines read so far keep the rules, and the opening that is kept is told from its line. -/
structure Faultless (d : Draft) (seen : Listing) : Prop where
  describes : d.Describes seen
  clean : ∀ a, ¬ Listing.Offends seen a
  kept : ∀ o, d.opening = some o → ∃ line, Listing.line? seen o.declaration = some line ∧
    line.operands = [o.name] ∧ line.number = o.line

theorem empty_faultless : Draft.empty.Faultless [] where
  describes := empty_describes
  clean := by
    intro a offends
    have bound := Listing.offends_bound offends
    simp only [List.length_nil] at bound
    omega
  kept := by simp [Draft.empty]

theorem Faultless.read {d next : Draft} {seen : Listing} {line : Line} {notes : List Note}
    (h : d.Faultless seen) (read : d.read (seen.length + 1) line = .ok (next, notes)) :
    next.Faultless (seen ++ [line]) := by
  obtain ⟨unopened, single, opens⟩ := read_ok read
  refine ⟨h.describes.read read, fun a offends => ?_, fun o opened => ?_⟩
  · by_cases old : a ≤ seen.length
    · exact h.clean a ((Listing.offends_append old [line]).mp offends)
    · have bound := Listing.offends_bound offends
      simp only [List.length_append, List.length_singleton] at bound
      have new : a = seen.length + 1 := by omega
      subst new
      rcases offends with nested | ⟨found, at_line, command, several⟩
      · obtain ⟨command, d', opened⟩ := (Listing.nested_append_new seen line []).mp nested
        obtain ⟨o, opening, _⟩ := (h.describes.open_iff d').mp opened
        rw [unopened command] at opening
        cases opening
      · rw [Listing.line?_append_new] at at_line
        cases at_line
        exact several (single command)
  · rcases opens o opened with old | ⟨operands, address, number⟩
    · obtain ⟨declaring, found, facts⟩ := h.kept o old
      refine ⟨declaring, ?_, facts⟩
      rw [Listing.line?_append_old (Listing.line?_bound found).2, found]
    · refine ⟨line, ?_, operands, number.symm⟩
      rw [address, Listing.line?_append_new]

/-- Reading stops at a line that is refused, after lines that are not. -/
theorem readAll_stops {d : Draft} {address : Nat} {lines : List Line} {diagnostic : Diagnostic}
    (read : (d.readAll address lines).2 = .error diagnostic) :
    ∃ before line rest middle fault, lines = before ++ line :: rest ∧
      (d.readAll address before).2 = .ok middle ∧
      middle.read (address + before.length) line = .error fault ∧
      diagnostic = fault.report (some line.number) := by
  induction lines generalizing d address with
  | nil => cases read
  | cons line rest ih =>
    simp only [Draft.readAll] at read
    cases first : d.read address line with
    | error fault =>
      rw [first] at read
      cases read
      exact ⟨[], line, rest, d, fault, rfl, rfl, first, rfl⟩
    | ok result =>
      obtain ⟨next, notes⟩ := result
      rw [first] at read
      obtain ⟨before, refused, others, middle, fault, rfl, reached, refusal, same⟩ := ih read
      refine ⟨line :: before, refused, others, middle, fault, rfl, ?_, ?_, same⟩
      · simp [Draft.readAll, first, reached]
      · rw [List.length_cons, Nat.add_comm before.length 1, ← Nat.add_assoc]
        exact refusal

/-- A line that is refused after lines that keep the rules is the first that does not. -/
theorem Faultless.blames {d : Draft} {seen : Listing} {line : Line} {fault : Fault}
    (h : d.Faultless seen) (read : d.read (seen.length + 1) line = .error fault) (rest : Listing) :
    Listing.Blames (seen ++ line :: rest) (fault.report (some line.number)) := by
  have found := Listing.line?_append_at seen line rest
  have first : ∀ b, b < seen.length + 1 → ¬ Listing.Offends (seen ++ line :: rest) b := by
    intro b before offends
    exact h.clean b ((Listing.offends_append (by omega) _).mp offends)
  rcases read_error read with ⟨o, opened, command, rfl⟩ | ⟨marks, several, rfl⟩
  · have open_at := (h.describes.open_iff o.declaration).mpr ⟨o, opened, rfl⟩
    refine .nested (seen.length + 1) o.declaration line o.name first found command ?_ ?_
    · exact (Listing.open_append (Nat.le_refl _) _).mpr open_at
    · exact (h.describes.opening o opened).1.append _
  · refine .miscounted (seen.length + 1) line first found ?_ ⟨line, found, ?_, several⟩
    · rw [Listing.nested_append_new]
      rintro ⟨command, d', opened⟩
      obtain ⟨o, opening, _⟩ := (h.describes.open_iff d').mp opened
      rcases marks with ⟨_, shut⟩ | other
      · rw [shut] at opening
        cases opening
      · rw [command] at other
        cases other
    · exact marks.imp And.left id

end Draft

/-- A listing compiles and is well formed, or it fails and is blamed for what it fails with. -/
theorem compile_cases (l : Listing) :
    (∃ p, (compile l).2 = .ok p) ∧ Listing.WellFormed l ∨
      ∃ diagnostic, (compile l).2 = .error diagnostic ∧ Listing.Blames l diagnostic := by
  have faultless {lines : Listing} {draft : Draft}
      (read : (Draft.empty.readAll 1 lines).2 = .ok draft) : draft.Faultless ([] ++ lines) :=
    Draft.readAll_keeps Draft.Faultless.read Draft.empty_faultless read
  cases read : (Draft.empty.readAll 1 l).2 with
  | error diagnostic =>
    obtain ⟨before, line, rest, middle, fault, rfl, reached, refusal, rfl⟩ := Draft.readAll_stops read
    rw [Nat.add_comm] at refusal
    exact .inr ⟨_, by simp [compile, read, Except.bind], (faultless reached).blames refusal rest⟩
  | ok draft =>
    have h : draft.Faultless l := faultless read
    cases opening : draft.opening with
    | none =>
      refine .inl ⟨⟨⟨l.toArray, draft.labels, draft.regions⟩, ?_⟩, ?_, ?_, ?_⟩
      · simp [compile, read, Except.bind, Draft.finish, opening]
      · exact fun a nested => h.clean a (.inl nested)
      · exact fun a miscounted => h.clean a (.inr miscounted)
      · intro d opened
        obtain ⟨o, kept, _⟩ := (h.describes.open_iff d).mp opened
        rw [opening] at kept
        cases kept
    | some o =>
      obtain ⟨line, found, operands, number⟩ := h.kept o opening
      have opened := (h.describes.open_iff o.declaration).mpr ⟨o, opening, rfl⟩
      refine .inr ⟨_, ?_, .unclosed o.declaration line o.name h.clean opened found operands⟩
      simp [compile, read, Except.bind, Draft.finish, opening, number]

/-- A listing compiles if and only if it is well formed, and any other listing is blamed for the first
line that breaks the rules or for the function that is left open. -/
theorem compile_verdict (l : Listing) :
    ((∃ p, (compile l).2 = .ok p) ↔ Listing.WellFormed l) ∧
      ∀ diagnostic, (compile l).2 = .error diagnostic ↔ Listing.Blames l diagnostic := by
  rcases compile_cases l with ⟨⟨p, compiled⟩, wellFormed⟩ | ⟨diagnostic, failed, blames⟩
  · refine ⟨⟨fun _ => wellFormed, fun _ => ⟨p, compiled⟩⟩, fun diagnostic => ⟨?_, ?_⟩⟩
    · intro failed
      rw [compiled] at failed
      cases failed
    · exact fun blames => absurd blames wellFormed.unblamed
  · refine ⟨⟨?_, fun wellFormed => absurd blames wellFormed.unblamed⟩, fun other => ⟨?_, ?_⟩⟩
    · rintro ⟨p, compiled⟩
      rw [failed] at compiled
      cases compiled
    · intro failed'
      rw [failed] at failed'
      cases failed'
      exact blames
    · intro blames'
      rw [failed, blames.unique blames']

-- A line that breaks both rules is blamed for standing in an open function.
example : (compile (Listing.ofSource "lb a\nfunction f\nfunction\n")).2 =
    .error ((Fault.nestedFunction "f").report (some 3)) :=
  rfl

end Program

end RegisterMachine
