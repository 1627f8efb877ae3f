import RegisterMachine.Instruction
import RegisterMachine.Proofs.Pieces

/-!
How the words of a text lie in it. What an operand takes depends on its pieces alone, not on what it
says so far or on the gap before it (`Fills`, `Lacks`), so the pieces of a text are operands one after
the other, each closed but perhaps the last (`Grouped`). Hence a text is its words with gaps around them
(`split_accounts`), and other gaps around the same words give the same words (`split_respaced`).
-/

namespace RegisterMachine

namespace Text

theorem trim_blanks {cs : List Char} (blank : ∀ c ∈ cs, isBlank c = true) : trim cs = [] := by
  have started : trimStart cs = [] := List.dropWhile_eq_nil_iff.mpr blank
  rw [trim, started]
  rfl

/-- A text that begins and ends with a letter. -/
structure Lettered (cs : List Char) : Prop where
  begins : ∃ c, cs.head? = some c ∧ isBlank c = false
  ends : ∃ c, cs.getLast? = some c ∧ isBlank c = false

theorem dropWhile_blank {c : Char} (letter : isBlank c = false) (cs : List Char) :
    (c :: cs).dropWhile isBlank = c :: cs := by
  simp [letter]

/-- Trimming takes off all blanks around a text, and nothing else. -/
theorem Lettered.trim_eq {cs : List Char} (lettered : Lettered cs) {gap tail : List Char}
    (before : ∀ c ∈ gap, isBlank c = true) (after : ∀ c ∈ tail, isBlank c = true) :
    trim (gap ++ (cs ++ tail)) = cs := by
  obtain ⟨c, first, letter⟩ := lettered.begins
  obtain ⟨d, last, ends⟩ := lettered.ends
  obtain ⟨rest, rfl⟩ := List.head?_eq_some_iff.mp first
  have started : trimStart (gap ++ (c :: rest ++ tail)) = c :: rest ++ tail := by
    rw [trimStart, List.dropWhile_append_of_pos before]
    exact dropWhile_blank letter (rest ++ tail)
  have blank : ∀ e ∈ tail.reverse, isBlank e = true := by
    intro e member
    exact after e (List.mem_reverse.mp member)
  rw [trim, started, trimEnd, List.reverse_append, List.dropWhile_append_of_pos blank]
  exact trimEnd_eq last ends

end Text

namespace Words

open Text (isBlank Lettered)

/-- Gaps and words in turn. -/
def weave : List (List Char) → List (List Char) → List Char
  | gap :: gaps, word :: words => gap ++ (word ++ weave gaps words)
  | _, _ => []

@[simp] theorem weave_cons (gap word : List Char) (gaps words : List (List Char)) :
    weave (gap :: gaps) (word :: words) = gap ++ (word ++ weave gaps words) := rfl

@[simp] theorem weave_nil (gaps : List (List Char)) : weave gaps [] = [] := by
  cases gaps <;> rfl

theorem intercalate_weave (word : List Char) (words : List (List Char)) :
    [' '].intercalate (word :: words) = weave ([] :: words.map fun _ => [' ']) (word :: words) := by
  induction words generalizing word with
  | nil => simp
  | cons next words ih =>
    rw [List.intercalate_cons_cons, ih]
    simp

/-- Blanks that set words apart from each other. Before the first there may be none. -/
structure Gaps (gaps words : List (List Char)) : Prop where
  count : gaps.length = words.length
  blank : ∀ gap ∈ gaps, ∀ c ∈ gap, isBlank c = true
  apart : ∀ gap ∈ gaps.tail, gap ≠ []

/-- Blanks that set a word apart from the one before it. -/
structure Parting (gap : List Char) : Prop where
  blank : ∀ c ∈ gap, isBlank c = true
  filled : gap ≠ []

/-- A piece that stands after another one. -/
structure Piece.Later (p : Piece) : Prop extends p.Sound where
  apart : p.gap ≠ []

theorem Piece.Later.parting {p : Piece} (later : p.Later) : Parting p.gap := ⟨later.gap, later.apart⟩

theorem Spaced.later {p : Piece} {ps : List Piece} (spaced : Spaced (p :: ps)) : ∀ q ∈ ps, q.Later := by
  intro q member
  exact ⟨spaced.sound q (List.mem_cons_of_mem _ member), spaced.apart q member⟩

theorem spaced_cons {p : Piece} {ps : List Piece} (sound : p.Sound) (later : ∀ q ∈ ps, q.Later) :
    Spaced (p :: ps) := by
  constructor
  · intro q member
    rcases List.mem_cons.mp member with rfl | among
    · exact sound
    · exact (later q among).toSound
  · intro q member
    exact (later q member).apart

theorem Spaced.lettered {p : Piece} {ps : List Piece} (spaced : Spaced (p :: ps)) :
    Lettered (p.word ++ spell ps) := by
  have sound := spaced.sound p (by simp)
  obtain ⟨c, rest, word⟩ := List.exists_cons_of_ne_nil sound.filled
  refine ⟨⟨c, by simp [word], ?_⟩, spaced.ends⟩
  exact sound.word c (by simp [word])

theorem lettered_of_later {p : Piece} {ps : List Piece} (later : ∀ q ∈ p :: ps, q.Later) :
    Lettered (p.word ++ spell ps) := by
  rw [List.forall_mem_cons] at later
  exact (spaced_cons later.1.toSound later.2).lettered

theorem later_of_gap {p : Piece} {ps : List Piece} (later : ∀ q ∈ p :: ps, q.Later) {gap : List Char}
    (parting : Parting gap) : ∀ q ∈ (⟨gap, p.word⟩ : Piece) :: ps, q.Later := by
  rw [List.forall_mem_cons] at later ⊢
  exact ⟨⟨⟨parting.blank, later.1.word, later.1.filled⟩, parting.filled⟩, later.2⟩

theorem pieces_blanks {cs : List Char} (blank : ∀ c ∈ cs, isBlank c = true) : pieces cs = [] := by
  have gap := pieces_gap blank []
  rw [List.append_nil] at gap
  exact gap

/-- The operands from the middle of one on, by what it says so far and what it waits for, if it still
waits for something. -/
def carryOn (text : List Char) : Option Awaiting → List Piece → List (List Char)
  | none, ps => text :: group none ps
  | some awaiting, ps => group (some (text, awaiting)) ps

theorem group_cons (p : Piece) (ps : List Piece) :
    group none (p :: ps) = carryOn p.word (Awaiting.opened p.word) ps := by
  simp only [group]
  cases Awaiting.opened p.word <;> rfl

theorem carryOn_cons (text : List Char) (awaiting : Awaiting) (p : Piece) (ps : List Piece) :
    carryOn text (some awaiting) (p :: ps) =
      carryOn (text ++ (p.gap ++ p.word)) (awaiting.after p.word) ps := by
  simp only [carryOn, group, List.append_assoc]
  cases awaiting.after p.word <;> rfl

/-- The pieces close an operand, whatever it says so far and whatever comes after them. -/
def Fills (awaiting : Option Awaiting) (ps : List Piece) : Prop :=
  ∀ text later, carryOn text awaiting (ps ++ later) = (text ++ spell ps) :: group none later

/-- The pieces all belong to an operand that may be open at their end. -/
def Lacks (awaiting : Option Awaiting) (ps : List Piece) : Prop :=
  ∀ text, carryOn text awaiting ps = [text ++ spell ps]

theorem fills_nil : Fills none [] := by
  intro text later
  simp [carryOn]

theorem Fills.more {awaiting : Awaiting} {p : Piece} {ps : List Piece}
    (fills : Fills (awaiting.after p.word) ps) : Fills (some awaiting) (p :: ps) := by
  intro text later
  rw [List.cons_append, carryOn_cons, fills]
  simp

theorem Lacks.more {awaiting : Awaiting} {p : Piece} {ps : List Piece}
    (lacks : Lacks (awaiting.after p.word) ps) : Lacks (some awaiting) (p :: ps) := by
  intro text
  rw [carryOn_cons, lacks]
  simp

/-- Some pieces close the operand, or it takes all there are. -/
theorem fills_or_lacks (awaiting : Option Awaiting) (ps : List Piece) :
    (∃ qs rest, ps = qs ++ rest ∧ Fills awaiting qs) ∨ Lacks awaiting ps := by
  induction ps generalizing awaiting with
  | nil =>
    cases awaiting with
    | none => exact .inl ⟨[], [], rfl, fills_nil⟩
    | some awaiting => exact .inr fun text => by simp [carryOn, group]
  | cons p ps ih =>
    cases awaiting with
    | none => exact .inl ⟨[], p :: ps, rfl, fills_nil⟩
    | some awaiting =>
      rcases ih (awaiting.after p.word) with ⟨qs, rest, rfl, fills⟩ | lacks
      · exact .inl ⟨p :: qs, rest, rfl, fills.more⟩
      · exact .inr lacks.more

/-- Pieces as operands one after the other: the gap before each and what it says. Only the last can be
open. -/
inductive Grouped : List Piece → List (List Char) → List (List Char) → Prop
  | nil : Grouped [] [] []
  | closed {p : Piece} {qs rest : List Piece} {gaps words : List (List Char)}
      (later : ∀ q ∈ p :: qs, q.Later) (fills : Fills (Awaiting.opened p.word) qs)
      (others : Grouped rest gaps words) :
      Grouped (p :: (qs ++ rest)) (p.gap :: gaps) ((p.word ++ spell qs) :: words)
  | last {p : Piece} {qs : List Piece} (later : ∀ q ∈ p :: qs, q.Later)
      (lacks : Lacks (Awaiting.opened p.word) qs) : Grouped (p :: qs) [p.gap] [p.word ++ spell qs]

theorem exists_grouped {ps : List Piece} (later : ∀ p ∈ ps, p.Later) :
    ∃ gaps words, Grouped ps gaps words := by
  -- An operand takes several pieces at a time, so the induction is on how many are left.
  induction size : ps.length using Nat.strong_induction_on generalizing ps with
  | _ n ih =>
    cases ps with
    | nil => exact ⟨[], [], .nil⟩
    | cons p ps =>
      rcases fills_or_lacks (Awaiting.opened p.word) ps with ⟨qs, rest, rfl, fills⟩ | lacks
      · rw [← List.cons_append, List.forall_mem_append] at later
        have shorter : rest.length < n := by
          rw [← size, List.length_cons, List.length_append]
          omega
        obtain ⟨gaps, words, others⟩ := ih rest.length shorter later.2 rfl
        exact ⟨_, _, .closed later.1 fills others⟩
      · exact ⟨_, _, .last later lacks⟩

namespace Grouped

variable {ps : List Piece} {gaps words : List (List Char)}

theorem group_eq (grouped : Grouped ps gaps words) : group none ps = words := by
  induction grouped with
  | nil => rfl
  | closed _ fills _ ih => rw [group_cons, fills, ih]
  | last _ lacks => rw [group_cons, lacks]

theorem later (grouped : Grouped ps gaps words) : ∀ p ∈ ps, p.Later := by
  induction grouped with
  | nil => simp
  | closed later _ _ ih =>
    rw [← List.cons_append, List.forall_mem_append]
    exact ⟨later, ih⟩
  | last later _ => exact later

theorem count (grouped : Grouped ps gaps words) : gaps.length = words.length := by
  induction grouped with
  | nil => rfl
  | closed _ _ _ ih => simp [ih]
  | last => rfl

theorem spell_eq (grouped : Grouped ps gaps words) : spell ps = weave gaps words := by
  induction grouped with
  | nil => rfl
  | closed _ _ _ ih =>
    rw [spell_cons, weave_cons, ← ih]
    simp [spell]
  | last => simp

/-- The gap before the first operand is no part of it. -/
theorem spell_first {p : Piece} (grouped : Grouped (p :: ps) gaps words) :
    p.word ++ spell ps = weave ([] :: gaps.tail) words := by
  cases grouped with
  | closed _ _ others =>
    rw [List.tail_cons, weave_cons, ← others.spell_eq]
    simp [spell]
  | last => simp

theorem parting (grouped : Grouped ps gaps words) : ∀ gap ∈ gaps, Parting gap := by
  induction grouped with
  | nil => simp
  | closed later _ _ ih => exact List.forall_mem_cons.mpr ⟨(later _ (by simp)).parting, ih⟩
  | last later _ => exact List.forall_mem_singleton.mpr (later _ (by simp)).parting

theorem lettered (grouped : Grouped ps gaps words) : ∀ word ∈ words, Lettered word := by
  induction grouped with
  | nil => simp
  | closed later _ _ ih => exact List.forall_mem_cons.mpr ⟨lettered_of_later later, ih⟩
  | last later _ => exact List.forall_mem_singleton.mpr (lettered_of_later later)

/-- Other gaps can stand between the same operands. -/
theorem respace (grouped : Grouped ps gaps words) {others : List (List Char)}
    (count : others.length = words.length) (parting : ∀ gap ∈ others, Parting gap) :
    ∃ qs, Grouped qs others words := by
  induction grouped generalizing others with
  | nil =>
    cases List.length_eq_zero_iff.mp count
    exact ⟨[], .nil⟩
  | closed later fills _ ih =>
    obtain ⟨gap, others, rfl⟩ := List.exists_cons_of_length_eq_add_one count
    rw [List.forall_mem_cons] at parting
    obtain ⟨moved, grouped⟩ := ih (Nat.succ.inj count) parting.2
    exact ⟨_, .closed (later_of_gap later parting.1) fills grouped⟩
  | last later lacks =>
    obtain ⟨gap, rfl⟩ := List.length_eq_one_iff.mp count
    exact ⟨_, .last (later_of_gap later (parting gap (by simp))) lacks⟩

end Grouped

/-- The words of a text, if it has any: a command, and operands. -/
theorem split_cases (cs : List Char) :
    (split cs = [] ∧ pieces cs = []) ∨
      ∃ p ps gaps words, pieces cs = p :: ps ∧ Spaced (p :: ps) ∧ Grouped ps gaps words ∧
        split cs = p.word :: words := by
  unfold split
  cases found : pieces cs with
  | nil => exact .inl ⟨rfl, rfl⟩
  | cons p ps =>
    have spaced : Spaced (p :: ps) := found ▸ spaced_pieces cs
    obtain ⟨gaps, words, grouped⟩ := exists_grouped spaced.later
    exact .inr ⟨p, ps, gaps, words, rfl, spaced, grouped, congrArg (p.word :: ·) grouped.group_eq⟩

theorem head_blank {cs : List Char} (blank : ∀ c ∈ cs, isBlank c = true) :
    ∀ c ∈ cs.head?, isBlank c = true := by
  intro c first
  exact blank c (List.mem_of_mem_head? first)

/-- What stands after the command is the operands, with the gaps between them. -/
theorem remainder_grouped {p : Piece} {ps : List Piece} {gaps words : List (List Char)}
    (sound : p.Sound) (grouped : Grouped ps gaps words) {tail : List Char}
    (blank : ∀ c ∈ tail, isBlank c = true) :
    remainder (spell (p :: ps) ++ tail) = weave ([] :: gaps.tail) words := by
  have spaced := spaced_cons sound grouped.later
  have started : (spell (p :: ps) ++ tail).dropWhile isBlank = p.word ++ (spell ps ++ tail) := by
    obtain ⟨c, rest, word⟩ := List.exists_cons_of_ne_nil sound.filled
    rw [spell_cons, List.append_assoc, List.dropWhile_append_of_pos sound.gap, word, List.append_assoc]
    exact Text.dropWhile_blank (sound.word c (by simp [word])) _
  have commanded : (p.word ++ (spell ps ++ tail)).dropWhile (!isBlank ·) = spell ps ++ tail := by
    have next := spaced.begins_append (head_blank blank)
    rw [List.dropWhile_append_of_pos (by simpa using sound.word)]
    cases after : spell ps ++ tail with
    | nil => rfl
    | cons c rest =>
      rw [after] at next
      simp [next c rfl]
  rw [remainder, started, commanded]
  cases ps with
  | nil =>
    cases grouped
    rw [weave_nil]
    exact Text.trim_blanks blank
  | cons q qs =>
    rw [← grouped.spell_first, spell_cons, List.append_assoc]
    exact spaced.tail.lettered.trim_eq (spaced.sound q (by simp)).gap blank

theorem remainder_blanks {cs : List Char} (blank : ∀ c ∈ cs, isBlank c = true) : remainder cs = [] := by
  rw [remainder, List.dropWhile_eq_nil_iff.mpr blank]
  rfl

/-- A text is its words with blanks around and between them. What stands after the first word are the
others with the blanks between them. -/
theorem exists_gaps (cs : List Char) :
    ∃ gaps tail, Gaps gaps (split cs) ∧ (∀ c ∈ tail, isBlank c = true) ∧
      cs = weave gaps (split cs) ++ tail ∧
      remainder cs = weave ([] :: gaps.drop 2) (split cs).tail := by
  obtain ⟨tail, blank, whole⟩ := spell_pieces cs
  rcases split_cases cs with ⟨none, found⟩ | ⟨p, ps, gaps, words, found, spaced, grouped, same⟩
  · rw [found, spell_nil, List.nil_append] at whole
    rw [none, whole]
    refine ⟨[], tail, ⟨rfl, by simp, by simp⟩, blank, rfl, ?_⟩
    rw [remainder_blanks blank]
    rfl
  · have sound := spaced.sound p (by simp)
    rw [found] at whole
    rw [same, whole]
    refine ⟨p.gap :: gaps, tail, ⟨?_, ?_, ?_⟩, blank, ?_, ?_⟩
    · simp [grouped.count]
    · exact List.forall_mem_cons.mpr ⟨sound.gap, fun gap member => (grouped.parting gap member).blank⟩
    · exact fun gap member => (grouped.parting gap member).filled
    · rw [spell_cons, weave_cons, grouped.spell_eq]
    · rw [remainder_grouped sound grouped blank]
      simp

theorem split_lettered {cs word : List Char} (member : word ∈ split cs) : Lettered word := by
  rcases split_cases cs with ⟨none, _⟩ | ⟨p, ps, gaps, words, _, spaced, grouped, same⟩
  · rw [none] at member
    cases member
  · rw [same] at member
    rcases List.mem_cons.mp member with rfl | among
    · have alone : Spaced [p] := spaced_cons (spaced.sound p (by simp)) (by simp)
      simpa using alone.lettered
    · exact grouped.lettered word among

theorem split_eq_nil_iff (cs : List Char) : split cs = [] ↔ ∀ c ∈ cs, isBlank c = true := by
  constructor
  · intro none
    obtain ⟨gaps, tail, _, blank, whole, _⟩ := exists_gaps cs
    rw [none, weave_nil, List.nil_append] at whole
    exact whole ▸ blank
  · intro blank
    rw [split, pieces_blanks blank]

/-- Operands after a command, with the gaps between them. -/
theorem Grouped.split_eq {ps : List Piece} {gaps words : List (List Char)}
    (grouped : Grouped ps gaps words) {p : Piece} (sound : p.Sound) {tail : List Char}
    (blank : ∀ c ∈ tail, isBlank c = true) :
    split (weave (p.gap :: gaps) (p.word :: words) ++ tail) = p.word :: words := by
  have spelled : weave (p.gap :: gaps) (p.word :: words) = spell (p :: ps) := by
    rw [weave_cons, spell_cons, grouped.spell_eq]
  rw [spelled, split, pieces_spell_append (spaced_cons sound grouped.later) (head_blank blank),
    pieces_blanks blank, List.append_nil]
  exact congrArg (p.word :: ·) grouped.group_eq

/-- Other blanks around and between the words of a text make a text with the same words. -/
theorem split_weave {cs tail : List Char} {gaps : List (List Char)} (set : Gaps gaps (split cs))
    (blank : ∀ c ∈ tail, isBlank c = true) : split (weave gaps (split cs) ++ tail) = split cs := by
  rcases split_cases cs with ⟨none, _⟩ | ⟨p, ps, old, words, _, spaced, grouped, same⟩
  · rw [none, weave_nil]
    exact (split_eq_nil_iff tail).mpr blank
  · rw [same] at set ⊢
    obtain ⟨gap, others, rfl⟩ := List.exists_cons_of_length_eq_add_one set.count
    have blanks := List.forall_mem_cons.mp set.blank
    have parting : ∀ other ∈ others, Parting other := by
      intro other member
      exact ⟨blanks.2 other member, set.apart other member⟩
    obtain ⟨qs, moved⟩ := grouped.respace (Nat.succ.inj set.count) parting
    have sound := spaced.sound p (by simp)
    have first : Piece.Sound ⟨gap, p.word⟩ := ⟨blanks.1, sound.word, sound.filled⟩
    exact moved.split_eq first blank

theorem split_joined (cs : List Char) : split ([' '].intercalate (split cs)) = split cs := by
  cases words : split cs with
  | nil => rfl
  | cons command operands =>
    have set : Gaps ([] :: operands.map fun _ => [' ']) (split cs) := by
      rw [words]
      refine ⟨by simp, ?_, by simp⟩
      intro gap member c among
      rcases List.mem_cons.mp member with rfl | later
      · cases among
      · obtain ⟨_, _, rfl⟩ := List.mem_map.mp later
        cases List.mem_singleton.mp among
        rfl
    have nothing : ∀ c ∈ ([] : List Char), isBlank c = true := by simp
    have read := split_weave set nothing
    rw [words, List.append_nil, ← intercalate_weave] at read
    exact read

/-- The words of a text do not hang on the blanks between them, and are its words once more. -/
theorem split_respaced (cs : List Char) :
    (∀ gaps tail, Gaps gaps (split cs) → (∀ c ∈ tail, isBlank c = true) →
      split (weave gaps (split cs) ++ tail) = split cs) ∧
    split ([' '].intercalate (split cs)) = split cs := by
  constructor
  · intro gaps tail set blank
    exact split_weave set blank
  · exact split_joined cs

/-- A quote, and a brace that stays open, both with blanks inside. -/
theorem split_respaced_open :
    let words := ["cmp".toList, "\"a \t b\"".toList, "\x7b\"k\":  [1,\t2".toList]
    split "\tcmp\u00a0\"a \t b\"  \x7b\"k\":  [1,\t2  ".toList = words ∧
      split (weave [[], ['\u3000'], ['\n', '\t']] words ++ ['\r']) = words ∧
      split ([' '].intercalate words) = words := by
  intro words
  have read : split "\tcmp\u00a0\"a \t b\"  \x7b\"k\":  [1,\t2  ".toList = words := by decide +kernel
  have respaced := split_respaced "\tcmp\u00a0\"a \t b\"  \x7b\"k\":  [1,\t2  ".toList
  rw [read] at respaced
  have set : Gaps [[], ['\u3000'], ['\n', '\t']] words := ⟨rfl, by simp [isBlank], by simp⟩
  exact ⟨read, respaced.1 _ _ set (by simp [isBlank]), respaced.2⟩

/-- The one operand of a text is the one operand of any other command in front of it. -/
theorem split_operand {cs command w : List Char} (single : split cs = [command, w])
    (other : List Char) (filled : other ≠ []) (letters : ∀ c ∈ other, isBlank c = false) :
    split (other ++ ' ' :: w) = [other, w] := by
  rcases split_cases cs with ⟨none, _⟩ | ⟨p, ps, gaps, words, _, _, grouped, same⟩
  · rw [none] at single
    cases single
  · rw [same] at single
    obtain ⟨_, rfl⟩ := List.cons.inj single
    have count : [[' ']].length = [w].length := rfl
    have space : Parting [' '] := ⟨by simp [isBlank], by simp⟩
    obtain ⟨qs, moved⟩ := grouped.respace count (List.forall_mem_singleton.mpr space)
    have first : Piece.Sound ⟨[], other⟩ := ⟨by simp, letters, filled⟩
    have nothing : ∀ c ∈ ([] : List Char), isBlank c = true := by simp
    have read := moved.split_eq first nothing
    simpa using read

/-- The one operand of a text holds no character that the text does not hold, and no blank ends it. -/
theorem operand_within {cs command w : List Char} (single : split cs = [command, w]) :
    (∀ c ∈ w, c ∈ cs) ∧ ∃ c, w.getLast? = some c ∧ isBlank c = false := by
  have lettered : Lettered w := split_lettered (by rw [single]; simp)
  refine ⟨?_, lettered.ends⟩
  intro c member
  obtain ⟨gaps, tail, set, _, whole, _⟩ := exists_gaps cs
  rw [single] at set whole
  obtain ⟨before, others, rfl⟩ := List.exists_cons_of_length_eq_add_one set.count
  obtain ⟨between, _, rfl⟩ := List.exists_cons_of_length_eq_add_one (Nat.succ.inj set.count)
  rw [whole]
  simp [member]

end Words

namespace Line

/-- The one operand of a line is all that stands after its command. -/
theorem remainder_single {number : Nat} {s w : String} {l : Line} (kept : read? number s = some l)
    (single : l.operands = [w]) : l.remainder = w := by
  obtain ⟨text, command, operands, _, words, rfl⟩ := read?_some kept
  obtain ⟨operand, rest, rfl, rfl, none⟩ := List.map_eq_cons_iff.mp single
  cases List.map_eq_nil_iff.mp none
  obtain ⟨gaps, tail, set, _, _, left⟩ := Words.exists_gaps text
  rw [remainder, String.toList_ofList, left, words]
  simp

end Line

namespace Instruction

theorem decode_eq {l : Line} {opcode : Opcode} {i : Instruction}
    (command : Opcode.ofCommand? l.command = some opcode)
    (given : ofOpcode? l opcode l.operands = some i) : decode l = .ok i := by
  simp [decode, command, given]

end Instruction

namespace Words

open Text (isBlank Lettered)

/-- The words of a text are all there is in it but for blanks, and each begins and ends with a letter. A
line with one operand gives the same text to a command that takes all that stands after it, and to one
that takes an operand. -/
theorem split_accounts (cs : List Char) :
    (∃ gaps tail, Gaps gaps (split cs) ∧ (∀ c ∈ tail, isBlank c = true) ∧
      cs = weave gaps (split cs) ++ tail ∧
      remainder cs = weave ([] :: gaps.drop 2) (split cs).tail) ∧
    (∀ word ∈ split cs, Lettered word) ∧
    (split cs = [] ↔ ∀ c ∈ cs, isBlank c = true) ∧
    ∀ number l w, Line.read? number (String.ofList cs) = some l → l.operands = [w] →
      l.remainder = w ∧
      (l.command = "print" → Instruction.decode l = .ok (.print w false)) ∧
      (l.command = "println" → Instruction.decode l = .ok (.print w true)) ∧
      (l.command = "printregval" → Instruction.decode l = .ok (.dumpValue w)) ∧
      ∀ other target, other.command = "mov" → other.operands = [target, w] →
        Instruction.decode other = .ok (.move target w) := by
  refine ⟨exists_gaps cs, fun word member => split_lettered member, split_eq_nil_iff cs, ?_⟩
  intro number l w kept single
  have same := Line.remainder_single kept single
  refine ⟨same, ?_, ?_, ?_, ?_⟩
  · intro command
    have opcode : Opcode.ofCommand? l.command = some .print := by rw [command]; rfl
    apply Instruction.decode_eq opcode
    rw [single, ← same]
    rfl
  · intro command
    have opcode : Opcode.ofCommand? l.command = some .println := by rw [command]; rfl
    apply Instruction.decode_eq opcode
    rw [single, ← same]
    rfl
  · intro command
    have opcode : Opcode.ofCommand? l.command = some .printRegVal := by rw [command]; rfl
    apply Instruction.decode_eq opcode
    rw [single]
    rfl
  · intro other target command operands
    have opcode : Opcode.ofCommand? other.command = some .mov := by rw [command]; rfl
    apply Instruction.decode_eq opcode
    rw [operands]
    rfl

/-- Blanks in the one operand of a line, and a comment after it. -/
theorem split_accounts_print :
    let l : Line := ⟨4, "print\t \"a   b\"", "print", ["\"a   b\""]⟩
    Line.read? 4 (String.ofList "  print\t \"a   b\" ; c".toList) = some l ∧
      l.remainder = "\"a   b\"" ∧ Instruction.decode l = .ok (.print "\"a   b\"" false) := by
  intro l
  have kept : Line.read? 4 (String.ofList "  print\t \"a   b\" ; c".toList) = some l := by
    decide +kernel
  obtain ⟨_, _, _, lines⟩ := split_accounts "  print\t \"a   b\" ; c".toList
  obtain ⟨same, print, _⟩ := lines 4 l "\"a   b\"" kept rfl
  exact ⟨kept, same, print rfl⟩

end Words

end RegisterMachine
