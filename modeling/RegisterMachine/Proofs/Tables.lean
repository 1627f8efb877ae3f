import Mathlib.Logic.ExistsUnique
import RegisterMachine.Proofs.Regions

/-!
The tables of a compiled program, read against its listing. `Charts` says of every address which
function owns it, of every name which label and which function it stands for, and which lines are a
function's body; `compile_charts` has this for every listing that compiles.
-/

namespace RegisterMachine

/-- Where later entries come first, the first entry that fits is the latest one that fits. -/
theorem find?_eq_some_iff_latest {α : Type} {entries : List α} {place : α → Nat}
    (falling : entries.Pairwise fun later earlier => place earlier < place later) (fits : α → Bool)
    (x : α) :
    entries.find? fits = some x ↔
      x ∈ entries ∧ fits x = true ∧ ∀ y ∈ entries, fits y = true → place y ≤ place x := by
  induction entries with
  | nil => simp
  | cons first rest ih =>
    obtain ⟨before, falling⟩ := List.pairwise_cons.mp falling
    by_cases fit : fits first = true
    · rw [List.find?_cons_of_pos fit]
      constructor
      · rintro ⟨⟩
        refine ⟨List.mem_cons_self, fit, fun y member _ => ?_⟩
        rcases List.mem_cons.mp member with rfl | later
        · exact Nat.le_refl _
        · exact Nat.le_of_lt (before y later)
      · rintro ⟨member, _, latest⟩
        rcases List.mem_cons.mp member with rfl | later
        · rfl
        · have above := latest first List.mem_cons_self fit
          have below := before x later
          omega
    · rw [List.find?_cons_of_neg fit, ih falling]
      constructor
      · rintro ⟨member, fitting, latest⟩
        refine ⟨List.mem_cons_of_mem _ member, fitting, fun y among fits_y => ?_⟩
        rcases List.mem_cons.mp among with rfl | later
        · exact absurd fits_y fit
        · exact latest y later fits_y
      · rintro ⟨member, fitting, latest⟩
        rcases List.mem_cons.mp member with rfl | later
        · exact absurd fitting fit
        · exact ⟨later, fitting, fun y among => latest y (List.mem_cons_of_mem _ among)⟩

theorem Table.find?_eq_map {α : Type} (t : Table α) (name : String) :
    t.find? name = (List.find? (fun entry => entry.1 = name) t).map Prod.snd := by
  induction t with
  | nil => rfl
  | cons entry rest ih =>
    obtain ⟨key, value⟩ := entry
    by_cases same : key = name
    · simp [Table.find?, same]
    · simp [Table.find?, same, ih]

namespace Listing

/-- The function that the line at `declaration` declares is still open before the line at `address`:
no `endfunction` line stands between the two. -/
def Open (l : Listing) (declaration address : Nat) : Prop :=
  opcode? l declaration = some .function ∧ declaration < address ∧
    ∀ a, declaration < a → a < address → opcode? l a ≠ some .endFunction

theorem Names.unique {l : Listing} {opcode opcode' : Opcode} {name name' : String} {address : Nat}
    (named : Names l opcode name address) (named' : Names l opcode' name' address) : name = name' := by
  obtain ⟨line, found, _, operands⟩ := named
  obtain ⟨line', found', _, operands'⟩ := named'
  rw [found] at found'
  cases found'
  rw [operands] at operands'
  exact (List.cons.inj operands').1

end Listing

namespace Program

/-- What the tables of a program say about a listing. -/
structure Charts (p : Program) (l : Listing) : Prop where
  lines : ∀ a, p.line? a = Listing.line? l a
  /-- Every `function` line begins exactly one function. -/
  begun : ∀ a, Listing.opcode? l a = some .function → ∃! r, r ∈ p.regions ∧ r.declaration = a
  spans : ∀ r ∈ p.regions, r.Spans l
  disjoint : p.regions.Pairwise fun r r' => ∀ a, ¬ (r.holds a = true ∧ r'.holds a = true)
  owner : ∀ a r, p.owner? a = some r ↔ r ∈ p.regions ∧ r.declaration ≤ a ∧ a ≤ r.close
  unowned : ∀ a, p.owner? a = none ↔ ∀ r ∈ p.regions, ¬ (r.declaration ≤ a ∧ a ≤ r.close)
  /-- An `endfunction` line at which no function is open belongs to none. -/
  stray : ∀ a, Listing.opcode? l a = some .endFunction → (∀ d, ¬ Listing.Open l d a) →
    p.owner? a = none
  label : ∀ name a, p.label? name = some a ↔
    Listing.Names l .lb name a ∧ ∀ b, Listing.Names l .lb name b → b ≤ a
  unlabelled : ∀ name, p.label? name = none ↔ ∀ a, ¬ Listing.Names l .lb name a
  function : ∀ name r, p.function? name = some r ↔
    r ∈ p.regions ∧ r.name = name ∧
      ∀ r' ∈ p.regions, r'.name = name → r'.declaration ≤ r.declaration
  undefined : ∀ name, p.function? name = none ↔ ∀ a, ¬ Listing.Names l .function name a
  /-- The body is the lines between the first and the last line. -/
  body : ∀ r ∈ p.regions, ∀ i, (p.body r)[i]? =
    if r.declaration + 1 + i < r.close then Listing.line? l (r.declaration + 1 + i) else none

namespace Tidy

variable {p : Program}

theorem begun_once (tidy : p.Tidy) {a : Nat}
    (marked : Listing.opcode? p.lines.toList a = some .function) :
    ∃! r, r ∈ p.regions ∧ r.declaration = a := by
  obtain ⟨r, member, rfl⟩ := tidy.begun a marked
  refine ⟨r, ⟨member, rfl⟩, fun r' other => ?_⟩
  obtain ⟨member', same⟩ := other
  have ordered := (tidy.spans r member).ordered
  have ordered' := (tidy.spans r' member').ordered
  exact tidy.region_eq member' member r.declaration (by omega) (by omega)

theorem disjoint (tidy : p.Tidy) :
    p.regions.Pairwise fun r r' => ∀ a, ¬ (r.holds a = true ∧ r'.holds a = true) := by
  refine tidy.apart.imp fun {later earlier} apart a both => ?_
  simp only [Region.holds, Bool.and_eq_true, decide_eq_true_eq] at both
  omega

theorem owner?_iff (tidy : p.Tidy) (a : Nat) (r : Region) :
    p.owner? a = some r ↔ r ∈ p.regions ∧ r.declaration ≤ a ∧ a ≤ r.close :=
  ⟨mem_of_owner?, fun owned => tidy.owner?_eq_some owned.1 a owned.2⟩

theorem owner?_stray (tidy : p.Tidy) {a : Nat}
    (closing : Listing.opcode? p.lines.toList a = some .endFunction)
    (shut : ∀ d, ¬ Listing.Open p.lines.toList d a) : p.owner? a = none := by
  cases owner : p.owner? a with
  | none => rfl
  | some r =>
    obtain ⟨member, after, before⟩ := mem_of_owner? owner
    have spans := tidy.spans r member
    have begins := spans.declared.opcode
    rcases Nat.lt_or_eq_of_le after with after | rfl
    · -- The function that owns the line is open at it.
      exfalso
      refine shut r.declaration ⟨begins, after, fun b later earlier ends => ?_⟩
      exact spans.unmarked b later (by omega) (.inr ends)
    · rw [begins] at closing
      cases closing

theorem label?_iff (tidy : p.Tidy) (name : String) (a : Nat) :
    p.label? name = some a ↔
      Listing.Names p.lines.toList .lb name a ∧
        ∀ b, Listing.Names p.lines.toList .lb name b → b ≤ a := by
  have latest := find?_eq_some_iff_latest tidy.latest fun entry => decide (entry.1 = name)
  rw [label?, Table.find?_eq_map, Option.map_eq_some_iff]
  constructor
  · rintro ⟨⟨key, address⟩, found, rfl⟩
    obtain ⟨member, same, greatest⟩ := (latest _).mp found
    obtain rfl : key = name := by simpa using same
    refine ⟨(tidy.labels key address).mp member, fun b named => ?_⟩
    exact greatest (key, b) ((tidy.labels key b).mpr named) (by simp)
  · rintro ⟨named, greatest⟩
    refine ⟨(name, a), (latest _).mpr ⟨(tidy.labels name a).mpr named, by simp, ?_⟩, rfl⟩
    rintro ⟨key, b⟩ member same
    obtain rfl : key = name := by simpa using same
    exact greatest b ((tidy.labels key b).mp member)

theorem label?_none (tidy : p.Tidy) (name : String) :
    p.label? name = none ↔ ∀ a, ¬ Listing.Names p.lines.toList .lb name a := by
  rw [label?, Table.find?_eq_map, Option.map_eq_none_iff, List.find?_eq_none]
  constructor
  · intro unknown a named
    exact unknown (name, a) ((tidy.labels name a).mpr named) (by simp)
  · rintro unnamed ⟨key, a⟩ member same
    obtain rfl : key = name := by simpa using same
    exact unnamed a ((tidy.labels key a).mp member)

theorem function?_iff (tidy : p.Tidy) (name : String) (r : Region) :
    p.function? name = some r ↔
      r ∈ p.regions ∧ r.name = name ∧
        ∀ r' ∈ p.regions, r'.name = name → r'.declaration ≤ r.declaration := by
  have falling : p.regions.Pairwise fun later earlier => earlier.declaration < later.declaration := by
    refine tidy.apart.imp_of_mem fun {later earlier} _ member apart => ?_
    have ordered := (tidy.spans earlier member).ordered
    omega
  simpa [function?] using find?_eq_some_iff_latest falling (fun r => decide (r.name = name)) r

theorem function?_none (tidy : p.Tidy) (name : String) :
    p.function? name = none ↔ ∀ a, ¬ Listing.Names p.lines.toList .function name a := by
  rw [function?, List.find?_eq_none]
  constructor
  · intro unknown a named
    obtain ⟨r, member, rfl⟩ := tidy.begun a named.opcode
    exact unknown r member (by simpa using (tidy.spans r member).declared.unique named)
  · intro unnamed r member same
    obtain rfl : r.name = name := by simpa using same
    exact unnamed r.declaration (tidy.spans r member).declared

theorem body_getElem? (tidy : p.Tidy) {r : Region} (member : r ∈ p.regions) (i : Nat) :
    (p.body r)[i]? = if r.declaration + 1 + i < r.close then p.line? (r.declaration + 1 + i)
      else none := by
  have ordered := (tidy.spans r member).ordered
  have index : r.declaration + 1 + i - 1 = r.declaration + i := by omega
  by_cases inside : r.declaration + 1 + i < r.close
  · have short : i < r.close - 1 - r.declaration := by omega
    simp [body, line?, inside, short, index]
  · have long : r.close - 1 - r.declaration ≤ i := by omega
    simp [body, inside, List.getElem?_take_eq_none long]

end Tidy

/-- The tables of a compiled program describe its listing. -/
theorem compile_charts {l : Listing} {p : Program} (compiled : (compile l).2 = .ok p) :
    p.Charts l := by
  obtain ⟨rfl, tidy⟩ := tidy_of_compile compiled
  refine ⟨p.line?_eq, fun _ => tidy.begun_once, tidy.spans, tidy.disjoint, tidy.owner?_iff, ?_,
    fun _ => tidy.owner?_stray, tidy.label?_iff, tidy.label?_none, tidy.function?_iff,
    tidy.function?_none, ?_⟩
  · intro a
    rw [owner?, List.find?_eq_none]
    simp [Region.holds]
  · intro r member i
    rw [tidy.body_getElem? member, p.line?_eq]

/-- An `endfunction` that closes nothing, a function with two definitions, the later one without a
body, and a label that hides one inside of a function. -/
theorem compile_charts_redefined :
    let l := Listing.ofSource
      "endfunction\nfunction f\nlb x\nendfunction\nfunction f\nendfunction\nlb x"
    ∃ p, (compile l).2 = .ok p ∧ p.Charts l ∧
      (p.owner? 1, p.owner? 4, p.owner? 8) = (none, some ⟨"f", 2, 4⟩, none) ∧
      (p.function? "f", p.label? "x") = (some ⟨"f", 5, 6⟩, some 7) := by
  intro l
  have computed : (compile l).2.toOption.map (fun p =>
      ((p.owner? 1, p.owner? 4, p.owner? 8), (p.function? "f", p.label? "x"))) =
        some ((none, some ⟨"f", 2, 4⟩, none), (some ⟨"f", 5, 6⟩, some 7)) := by decide +kernel
  obtain ⟨p, compiled, found⟩ := ok_of_computed computed
  obtain ⟨owners, names⟩ := Prod.mk.inj found
  exact ⟨p, compiled, compile_charts compiled, owners, names⟩

end Program

end RegisterMachine
