import Mathlib.Data.List.Forall2
import RegisterMachine.Machine

/-!
Programs that are alike. Two listings whose lines correspond, the second with some lines in front that
declare nothing, compile to tables that are equal up to the addresses, or are refused for the same
reason (`Program.compile_like`). What corresponding lines may differ in is given by a `Likeness`: the
numbers of the lines, and what a call hands over besides the name of the function.
-/

namespace RegisterMachine

/-- How two programs and their runs correspond. -/
structure Likeness where
  /-- How much further down the lines of the second program stand. -/
  offset : Nat
  /-- Which line numbers correspond. -/
  numbers : Nat → Nat → Prop
  /-- Which arguments of calls correspond. -/
  parameters : List String → List String → Prop
  parameters_refl : ∀ ps, parameters ps ps
  /-- Where a call returns to in the second run that returns nowhere in the first. -/
  origin : Option Nat

/-- Two results are alike: both are good, or both fail. -/
inductive Agree {ε α β : Type} (E : ε → ε → Prop) (R : α → β → Prop) : Except ε α → Except ε β → Prop
  | ok {a : α} {b : β} : R a b → Agree E R (.ok a) (.ok b)
  | error {e e' : ε} : E e e' → Agree E R (.error e) (.error e')

theorem Agree.imp {ε α β : Type} {E E' : ε → ε → Prop} {R R' : α → β → Prop} {x : Except ε α}
    {y : Except ε β} (agree : Agree E R x y) (errors : ∀ e e', E e e' → E' e e')
    (values : ∀ a b, R a b → R' a b) : Agree E' R' x y := by
  cases agree with
  | ok related => exact .ok (values _ _ related)
  | error related => exact .error (errors _ _ related)

theorem forall₂_getElem? {α β : Type} {R : α → β → Prop} {xs : List α} {ys : List β}
    (alike : List.Forall₂ R xs ys) (i : Nat) : Option.Rel R xs[i]? ys[i]? := by
  induction alike generalizing i with
  | nil => exact .none
  | cons first _ ih =>
    cases i with
    | zero => exact .some first
    | succ i => exact ih i

theorem forall₂_head? {α β : Type} {R : α → β → Prop} {xs : List α} {ys : List β}
    (alike : List.Forall₂ R xs ys) : Option.Rel R xs.head? ys.head? := by
  cases alike with
  | nil => exact .none
  | cons first _ => exact .some first

variable (k : Likeness)

/-- Lines that do the same. Only calls may differ in more than their numbers. -/
structure Line.Like (l l' : Line) : Prop where
  number : k.numbers l.number l'.number
  command : l'.command = l.command
  operands : (l'.text = l.text ∧ l'.operands = l.operands) ∨
    (Opcode.ofCommand? l.command = some .call ∨ Opcode.ofCommand? l.command = some .async) ∧
      ∃ function ps ps', l.operands = function :: ps ∧ l'.operands = function :: ps' ∧
        k.parameters ps ps'

/-- Only calls differ in their operands. -/
theorem Line.Like.operands_eq {k : Likeness} {l l' : Line} (alike : l.Like k l')
    (plain : Opcode.ofCommand? l.command ≠ some .call ∧ Opcode.ofCommand? l.command ≠ some .async) :
    l'.operands = l.operands := by
  rcases alike.operands with ⟨_, equal⟩ | ⟨call | async, _⟩
  · exact equal
  · exact absurd call plain.1
  · exact absurd async plain.2

structure Diagnostic.Like (d d' : Diagnostic) : Prop where
  kind : d'.kind = d.kind
  message : d'.message = d.message
  line : Option.Rel k.numbers d.line d'.line

theorem Fault.report_like {k : Likeness} (f : Fault) {line line' : Option Nat}
    (alike : Option.Rel k.numbers line line') : (f.report line).Like k (f.report line') :=
  ⟨rfl, rfl, alike⟩

/-- The function as it stands further down. -/
def Region.shift (offset : Nat) (r : Region) : Region :=
  ⟨r.name, r.declaration + offset, r.close + offset⟩

namespace Program

structure Opening.Like (o o' : Opening) : Prop where
  name : o'.name = o.name
  declaration : o'.declaration = o.declaration + k.offset
  line : k.numbers o.line o'.line

structure Draft.Like (d d' : Draft) : Prop where
  opening : Option.Rel (Opening.Like k) d.opening d'.opening
  labels : d'.labels = d.labels.map fun (name, address) => (name, address + k.offset)
  regions : d'.regions = d.regions.map (Region.shift k.offset)

structure Like (p p' : Program) : Prop where
  lines : ∀ address, 0 < address ∨ k.offset = 0 →
    Option.Rel (Line.Like k) (p.line? address) (p'.line? (address + k.offset))
  labels : p'.labels = p.labels.map fun (name, address) => (name, address + k.offset)
  regions : p'.regions = p.regions.map (Region.shift k.offset)

variable {k}

namespace Draft

theorem empty_like : empty.Like k empty := ⟨.none, rfl, rfl⟩

theorem Like.openFunction {d d' : Draft} (alike : d.Like k d') {l l' : Line} (same : l.Like k l')
    (operands : l'.operands = l.operands) (address : Nat) :
    Agree Eq (Draft.Like k) (d.openFunction address l) (d'.openFunction (address + k.offset) l') := by
  obtain ⟨opening, labels, regions⟩ := d
  obtain ⟨opening', labels', regions'⟩ := d'
  obtain ⟨opened, rfl, rfl⟩ := alike
  simp only [Draft.openFunction, operands]
  cases opened with
  | some open_like => exact .error (by rw [open_like.name])
  | none =>
    dsimp only
    split
    · exact .ok ⟨.some ⟨rfl, rfl, same.number⟩, rfl, rfl⟩
    · exact .error rfl

theorem Like.closeFunction {d d' : Draft} (alike : d.Like k d') (l l' : Line) (address : Nat) :
    (d.closeFunction address l).1.Like k (d'.closeFunction (address + k.offset) l').1 := by
  obtain ⟨opening, labels, regions⟩ := d
  obtain ⟨opening', labels', regions'⟩ := d'
  obtain ⟨opened, rfl, rfl⟩ := alike
  cases opened with
  | none => exact ⟨.none, rfl, rfl⟩
  | some open_like =>
    refine ⟨.none, rfl, ?_⟩
    simp [Draft.closeFunction, Region.shift, open_like.name, open_like.declaration]

theorem Like.addLabel {d d' : Draft} (alike : d.Like k d') {l l' : Line}
    (operands : l'.operands = l.operands) (address : Nat) :
    Agree Eq (fun r r' => Draft.Like k r.1 r'.1) (d.addLabel address l)
      (d'.addLabel (address + k.offset) l') := by
  simp only [Draft.addLabel, operands]
  split
  · exact .ok ⟨alike.opening, by simp [alike.labels], alike.regions⟩
  · exact .error rfl

/-- A line leads to drafts that are alike, or is refused in both for the same reason. -/
theorem Like.read {d d' : Draft} (alike : d.Like k d') {l l' : Line} (same : l.Like k l')
    (address : Nat) :
    Agree Eq (fun r r' => Draft.Like k r.1 r'.1) (d.read address l)
      (d'.read (address + k.offset) l') := by
  unfold Draft.read
  rw [same.command]
  split
  · rename_i declares
    have opened := alike.openFunction same (same.operands_eq (by simp [declares])) address
    generalize d.openFunction address l = x at opened
    generalize d'.openFunction (address + k.offset) l' = y at opened
    cases opened with
    | ok drafts => exact .ok drafts
    | error equal => exact .error equal
  · exact .ok (alike.closeFunction l l' address)
  · rename_i marks
    exact alike.addLabel (same.operands_eq (by simp [marks])) address
  · exact .ok alike

theorem Like.readAll {d d' : Draft} (alike : d.Like k d') {ls ls' : List Line}
    (same : List.Forall₂ (Line.Like k) ls ls') (address : Nat) :
    Agree (Diagnostic.Like k) (Draft.Like k) (d.readAll address ls).2
      (d'.readAll (address + k.offset) ls').2 := by
  induction same generalizing d d' address with
  | nil => exact .ok alike
  | @cons l l' ls ls' first _ ih =>
    have read := alike.read first address
    unfold Draft.readAll
    generalize d.read address l = x at read
    generalize d'.read (address + k.offset) l' = y at read
    cases read with
    | error equal => exact .error (equal ▸ Fault.report_like _ (.some first.number))
    | ok drafts =>
      have rest := ih drafts (address + 1)
      rw [Nat.add_right_comm] at rest
      exact rest

/-- Lines in front that declare nothing only move the others down. -/
theorem readAll_front {front : List Line}
    (inert : ∀ l ∈ front, ∀ (d : Draft) (a : Nat), d.read a l = .ok (d, [])) (d : Draft)
    (address : Nat) (ls : List Line) :
    (d.readAll address (front ++ ls)).2 = (d.readAll (address + front.length) ls).2 := by
  induction front generalizing address with
  | nil => rfl
  | cons l front ih =>
    rw [List.cons_append, Draft.readAll, inert l (by simp) d address, List.length_cons,
      Nat.add_comm front.length, ← Nat.add_assoc]
    exact ih (fun other member => inert other (List.mem_cons_of_mem _ member)) (address + 1)

end Draft

/-- Alike listings, the second behind lines that declare nothing, compile to alike programs, or are
refused for the same reason. -/
theorem compile_like {listing listing' : Listing}
    (same : List.Forall₂ (Line.Like k) listing listing') (front : Listing)
    (behind : front.length = k.offset)
    (inert : ∀ l ∈ front, ∀ (d : Draft) (a : Nat), d.read a l = .ok (d, [])) :
    Agree (Diagnostic.Like k) (Program.Like k) (compile listing).2 (compile (front ++ listing')).2 := by
  have drafts := (Draft.empty_like (k := k)).readAll same 1
  simp only [compile, Draft.readAll_front inert, behind]
  generalize (Draft.empty.readAll 1 listing).2 = x at drafts
  generalize (Draft.empty.readAll (1 + k.offset) listing').2 = y at drafts
  cases drafts with
  | error alike => exact .error alike
  | @ok d d' alike =>
    obtain ⟨opening, labels, regions⟩ := d
    obtain ⟨opening', labels', regions'⟩ := d'
    obtain ⟨opened, rfl, rfl⟩ := alike
    cases opened with
    | some open_like =>
      simp only [Except.bind, Draft.finish, open_like.name]
      exact .error (Fault.report_like _ (.some open_like.line))
    | none =>
      refine .ok ⟨fun address counted => ?_, rfl, rfl⟩
      simp only [line?, List.getElem?_toArray]
      by_cases zero : address = 0
      · have none : k.offset = 0 := by omega
        simp [zero, none]
      · have further : address + k.offset - 1 = (address - 1) + front.length := by omega
        rw [if_neg zero, if_neg (by omega), further,
          List.getElem?_append_right (Nat.le_add_left _ _), Nat.add_sub_cancel]
        exact forall₂_getElem? same (address - 1)

namespace Like

variable {p p' : Program}

theorem label? (alike : p.Like k p') (name : String) :
    p'.label? name = (p.label? name).map (· + k.offset) := by
  unfold Program.label?
  rw [alike.labels]
  generalize p.labels = labels
  induction labels with
  | nil => rfl
  | cons entry rest ih =>
    simp only [List.map_cons, Table.find?]
    split
    · rfl
    · exact ih

theorem function? (alike : p.Like k p') (name : String) :
    p'.function? name = (p.function? name).map (Region.shift k.offset) := by
  unfold Program.function?
  rw [alike.regions, List.find?_map]
  rfl

theorem owner? (alike : p.Like k p') (address : Nat) :
    p'.owner? (address + k.offset) = (p.owner? address).map (Region.shift k.offset) := by
  have holds : (fun r : Region => r.holds (address + k.offset)) ∘ Region.shift k.offset =
      fun r => r.holds address := by
    funext r
    simp [Region.shift, Region.holds]
  unfold Program.owner?
  rw [alike.regions, List.find?_map, holds]

end Like

end Program

end RegisterMachine
