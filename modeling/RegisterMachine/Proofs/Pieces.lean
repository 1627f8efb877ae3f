import Mathlib.Data.List.TakeWhile
import RegisterMachine.Line

/-!
The pieces of a line and the text that they spell. Pieces are read back from what they spell
(`pieces_spell_append`), and the pieces of a text spell all of it but the blanks at its end
(`spell_pieces`).
-/

namespace RegisterMachine

namespace Text

theorem mem_of_trimEnd {cs : List Char} {c : Char} (member : c ∈ trimEnd cs) : c ∈ cs := by
  rw [trimEnd, List.mem_reverse] at member
  simpa using (List.dropWhile_sublist _).subset member

theorem mem_of_trim {cs : List Char} {c : Char} (member : c ∈ trim cs) : c ∈ cs :=
  (List.dropWhile_sublist _).subset (mem_of_trimEnd member)

theorem trimEnd_eq {cs : List Char} {c : Char} (last : cs.getLast? = some c)
    (ends : isBlank c = false) : trimEnd cs = cs := by
  obtain ⟨front, rfl⟩ := List.getLast?_eq_some_iff.mp last
  simp [trimEnd, ends]

theorem feed_not_mem {cs line : List Char} (member : line ∈ lines cs) : '\n' ∉ line := by
  fun_induction lines cs generalizing line with
  | case1 => cases member
  | case2 rest ih | case3 rest ih =>
    rcases List.mem_cons.mp member with rfl | later
    · simp
    · exact ih later
  | case4 c rest noFeed noReturn ended ih =>
    cases List.mem_singleton.mp member
    simpa using fun same => noFeed same.symm
  | case5 c rest noFeed noReturn first others found ih =>
    rw [found] at ih
    rcases List.mem_cons.mp member with rfl | later
    · simpa using ⟨fun same => noFeed same.symm, ih (by simp)⟩
    · exact ih (List.mem_cons_of_mem _ later)

/-- A line feed ends a line, unless a carriage return before it does. -/
theorem lines_feed {line : List Char} (noFeed : '\n' ∉ line) (noReturn : line.getLast? ≠ some '\r')
    (rest : List Char) : lines (line ++ '\n' :: rest) = line :: lines rest := by
  induction line with
  | nil => rfl
  | cons c line ih =>
    have feed : c ≠ '\n' := fun same => noFeed (by simp [same])
    have later := ih (fun member => noFeed (List.mem_cons_of_mem _ member))
      (fun last => noReturn (by cases line <;> simp_all))
    rw [List.cons_append, lines, later]
    · exact feed
    · intro other same begins
      cases line with
      | nil => exact noReturn (by simp [same])
      | cons d line => exact noFeed (by simp [(List.cons.inj begins).1])

end Text

namespace Words

open Text (isBlank trim trimStart trimEnd)

/-- The text that pieces stand for. -/
def spell (ps : List Piece) : List Char := ps.flatMap fun p => p.gap ++ p.word

@[simp] theorem spell_nil : spell [] = [] := rfl

@[simp] theorem spell_cons (p : Piece) (ps : List Piece) :
    spell (p :: ps) = p.gap ++ (p.word ++ spell ps) := by
  simp [spell]

/-- Blanks, and then a word. -/
structure Piece.Sound (p : Piece) : Prop where
  gap : ∀ c ∈ p.gap, isBlank c = true
  word : ∀ c ∈ p.word, isBlank c = false
  filled : p.word ≠ []

/-- Sound pieces that are kept apart by blanks. -/
structure Spaced (ps : List Piece) : Prop where
  sound : ∀ p ∈ ps, p.Sound
  apart : ∀ p ∈ ps.tail, p.gap ≠ []

theorem spaced_nil : Spaced [] := ⟨by simp, by simp⟩

theorem Spaced.tail {p : Piece} {ps : List Piece} (spaced : Spaced (p :: ps)) : Spaced ps where
  sound q member := spaced.sound q (List.mem_cons_of_mem _ member)
  apart q member := spaced.apart q (List.mem_of_mem_tail member)

/-- The text of later pieces begins with a blank. -/
theorem Spaced.begins {p : Piece} {ps : List Piece} (spaced : Spaced (p :: ps)) :
    ∀ c ∈ (spell ps).head?, isBlank c = true := by
  cases ps with
  | nil => simp
  | cons q qs =>
    intro c first
    have apart := spaced.apart q (by simp)
    obtain ⟨d, rest, gap⟩ := List.exists_cons_of_ne_nil apart
    rw [spell_cons, gap] at first
    cases first
    exact (spaced.sound q (by simp)).gap c (by simp [gap])

/-- The text of pieces ends with the last letter of a word. -/
theorem Spaced.ends {p : Piece} {ps : List Piece} (spaced : Spaced (p :: ps)) :
    ∃ c, (p.word ++ spell ps).getLast? = some c ∧ isBlank c = false := by
  induction ps generalizing p with
  | nil =>
    have sound := spaced.sound p (by simp)
    have last := List.getLast?_eq_some_getLast sound.filled
    exact ⟨_, by simpa using last, sound.word _ (List.getLast_mem sound.filled)⟩
  | cons q qs ih =>
    obtain ⟨c, last, letter⟩ := ih spaced.tail
    refine ⟨c, ?_, letter⟩
    rw [spell_cons, ← List.append_assoc, List.getLast?_append, last]
    rfl

theorem pieces_blank {c : Char} (blank : isBlank c = true) (rest : List Char) :
    pieces (c :: rest) = (pieces rest).modifyHead fun p => ⟨c :: p.gap, p.word⟩ := by
  conv => lhs; unfold pieces
  generalize pieces rest = ps
  rw [blank]
  cases ps with
  | nil => rfl
  | cons p ps => rfl

/-- A letter before a gap or the end is a word of its own. -/
theorem pieces_letter {c : Char} (letter : isBlank c = false) {rest : List Char}
    (apart : ∀ p ∈ (pieces rest).head?, p.gap ≠ []) :
    pieces (c :: rest) = ⟨[], [c]⟩ :: pieces rest := by
  conv => lhs; unfold pieces
  generalize pieces rest = ps at apart
  rw [letter]
  rcases ps with _ | ⟨⟨gap, word⟩, ps⟩
  · rfl
  · cases gap with
    | nil => exact absurd rfl (apart ⟨[], word⟩ rfl)
    | cons d gap => rfl

/-- A letter before a word begins that word. -/
theorem pieces_joined {c : Char} (letter : isBlank c = false) {rest word : List Char}
    {ps : List Piece} (found : pieces rest = ⟨[], word⟩ :: ps) :
    pieces (c :: rest) = ⟨[], c :: word⟩ :: ps := by
  conv => lhs; unfold pieces
  rw [letter, found]

theorem pieces_gap {gap : List Char} (blank : ∀ c ∈ gap, isBlank c = true) (rest : List Char) :
    pieces (gap ++ rest) = (pieces rest).modifyHead fun p => ⟨gap ++ p.gap, p.word⟩ := by
  induction gap with
  | nil =>
    simp only [List.nil_append]
    generalize pieces rest = ps
    cases ps <;> rfl
  | cons c gap ih =>
    rw [List.cons_append, pieces_blank (blank c (by simp)),
      ih fun d member => blank d (List.mem_cons_of_mem _ member)]
    generalize pieces rest = ps
    cases ps <;> rfl

/-- Before a blank or the end, no piece begins without a gap. -/
theorem pieces_apart {rest : List Char} (begins : ∀ c ∈ rest.head?, isBlank c = true) :
    ∀ p ∈ (pieces rest).head?, p.gap ≠ [] := by
  cases rest with
  | nil => exact fun p member => nomatch member
  | cons c rest =>
    rw [pieces_blank (begins c rfl)]
    generalize pieces rest = ps
    cases ps <;> simp

/-- A word before a blank or the end is a piece. -/
theorem pieces_word {word rest : List Char} (filled : word ≠ [])
    (letters : ∀ c ∈ word, isBlank c = false) (begins : ∀ c ∈ rest.head?, isBlank c = true) :
    pieces (word ++ rest) = ⟨[], word⟩ :: pieces rest := by
  induction word with
  | nil => exact absurd rfl filled
  | cons c word ih =>
    have letter := letters c (by simp)
    cases word with
    | nil => exact pieces_letter letter (pieces_apart begins)
    | cons d word =>
      have later := ih (by simp) fun e member => letters e (List.mem_cons_of_mem _ member)
      exact pieces_joined letter later

theorem Spaced.begins_append {p : Piece} {ps : List Piece} (spaced : Spaced (p :: ps))
    {rest : List Char} (begins : ∀ c ∈ rest.head?, isBlank c = true) :
    ∀ c ∈ (spell ps ++ rest).head?, isBlank c = true := by
  cases later : spell ps with
  | nil => exact begins
  | cons d tail =>
    have first := spaced.begins
    rw [later] at first
    exact first

/-- Pieces are read back from what they spell, before a blank or the end. -/
theorem pieces_spell_append {ps : List Piece} (spaced : Spaced ps) {rest : List Char}
    (begins : ∀ c ∈ rest.head?, isBlank c = true) : pieces (spell ps ++ rest) = ps ++ pieces rest := by
  induction ps with
  | nil => rfl
  | cons p ps ih =>
    have sound := spaced.sound p (by simp)
    rw [spell_cons, List.append_assoc, List.append_assoc, pieces_gap sound.gap,
      pieces_word sound.filled sound.word (spaced.begins_append begins), ih spaced.tail]
    simp

/-- How a character changes the pieces of the text after it. -/
theorem pieces_cases (c : Char) (rest : List Char) :
    (isBlank c = true ∧ pieces (c :: rest) = (pieces rest).modifyHead fun p => ⟨c :: p.gap, p.word⟩) ∨
      (isBlank c = false ∧ (∀ p ∈ (pieces rest).head?, p.gap ≠ []) ∧
        pieces (c :: rest) = ⟨[], [c]⟩ :: pieces rest) ∨
      isBlank c = false ∧ ∃ word ps, pieces rest = ⟨[], word⟩ :: ps ∧
        pieces (c :: rest) = ⟨[], c :: word⟩ :: ps := by
  cases blank : isBlank c with
  | true => exact .inl ⟨rfl, pieces_blank blank rest⟩
  | false =>
    refine .inr ?_
    rcases found : pieces rest with _ | ⟨⟨gap, word⟩, ps⟩
    · exact .inl ⟨rfl, by simp, by rw [pieces_letter blank (by simp [found]), found]⟩
    · cases gap with
      | nil => exact .inr ⟨rfl, word, ps, rfl, pieces_joined blank found⟩
      | cons d gap => exact .inl ⟨rfl, by simp, by rw [pieces_letter blank (by simp [found]), found]⟩

theorem spaced_pieces (cs : List Char) : Spaced (pieces cs) := by
  induction cs with
  | nil => exact spaced_nil
  | cons c rest ih =>
    rcases pieces_cases c rest with ⟨blank, same⟩ | ⟨letter, apart, same⟩ | ⟨letter, word, ps, found, same⟩
    · rw [same]
      cases found : pieces rest with
      | nil => exact spaced_nil
      | cons p ps =>
        rw [found] at ih
        refine ⟨?_, ih.apart⟩
        intro q member
        rcases List.mem_cons.mp member with rfl | later
        · have sound := ih.sound p (by simp)
          exact ⟨by simpa using ⟨blank, sound.gap⟩, sound.word, sound.filled⟩
        · exact ih.sound q (List.mem_cons_of_mem _ later)
    · rw [same]
      refine ⟨?_, ?_⟩
      · intro q member
        rcases List.mem_cons.mp member with rfl | later
        · exact ⟨by simp, by simpa using letter, by simp⟩
        · exact ih.sound q later
      · cases found : pieces rest with
        | nil => simp
        | cons p ps =>
          rw [found] at ih apart
          intro q member
          rcases List.mem_cons.mp member with rfl | later
          · exact apart q rfl
          · exact ih.apart q later
    · rw [same]
      rw [found] at ih
      refine ⟨?_, ih.apart⟩
      intro q member
      rcases List.mem_cons.mp member with rfl | later
      · have sound := ih.sound ⟨[], word⟩ (by simp)
        exact ⟨by simp, by simpa using ⟨letter, sound.word⟩, by simp⟩
      · exact ih.sound q (List.mem_cons_of_mem _ later)

/-- The pieces of a text spell it, but for the blanks at its end. -/
theorem spell_pieces (cs : List Char) :
    ∃ tail, (∀ c ∈ tail, isBlank c = true) ∧ cs = spell (pieces cs) ++ tail := by
  induction cs with
  | nil => exact ⟨[], by simp, rfl⟩
  | cons c rest ih =>
    obtain ⟨tail, blanks, whole⟩ := ih
    rcases pieces_cases c rest with ⟨blank, same⟩ | ⟨_, _, same⟩ | ⟨_, word, ps, found, same⟩
    · cases found : pieces rest with
      | nil =>
        rw [found] at whole same
        refine ⟨c :: rest, ?_, by rw [same]; rfl⟩
        rw [List.forall_mem_cons, whole]
        exact ⟨blank, blanks⟩
      | cons p ps =>
        rw [found] at whole same
        refine ⟨tail, blanks, ?_⟩
        rw [same]
        simpa using whole
    · refine ⟨tail, blanks, ?_⟩
      rw [same]
      simpa using whole
    · rw [found] at whole
      refine ⟨tail, blanks, ?_⟩
      rw [same]
      simpa using whole

/-- The pieces of a text that ends with a letter spell all of it. -/
theorem spell_whole {cs : List Char} {d : Char} (last : cs.getLast? = some d)
    (ends : isBlank d = false) : spell (pieces cs) = cs := by
  obtain ⟨tail, blanks, whole⟩ := spell_pieces cs
  cases List.eq_nil_or_concat tail with
  | inl none =>
    rw [none, List.append_nil] at whole
    exact whole.symm
  | inr more =>
    -- Blanks after the pieces would be the end of the text.
    obtain ⟨front, e, rfl⟩ := more
    have blank := blanks e (by simp)
    rw [whole, List.concat_eq_append, ← List.append_assoc, List.getLast?_concat] at last
    cases last
    rw [ends] at blank
    cases blank

theorem mem_of_stripComment {cs text : List Char} (kept : stripComment cs = some text) {c : Char}
    (member : c ∈ text) : c ∈ cs ∧ c ≠ ';' := by
  unfold stripComment at kept
  split at kept
  · cases kept
  · rename_i d rest trimmed
    split at kept
    · cases kept
    · cases kept
      have among : c ∈ (d :: rest).takeWhile (· ≠ ';') := Text.mem_of_trimEnd member
      refine ⟨Text.mem_of_trim ?_, by simpa using List.mem_takeWhile_imp among⟩
      rw [trimmed]
      exact (List.takeWhile_sublist _).subset among

/-- A text without blanks around it and without a comment is kept as it stands. -/
theorem stripComment_eq {c d : Char} {rest : List Char} (letter : isBlank c = false) (noHash : c ≠ '#')
    (noComment : ∀ e ∈ c :: rest, e ≠ ';') (last : (c :: rest).getLast? = some d)
    (ends : isBlank d = false) : stripComment (c :: rest) = some (c :: rest) := by
  have trimmed : trim (c :: rest) = c :: rest := by
    rw [trim, trimStart, List.dropWhile_cons, letter]
    exact Text.trimEnd_eq last ends
  have whole : (c :: rest).takeWhile (· ≠ ';') = c :: rest :=
    List.takeWhile_eq_self_iff.mpr (by simpa using noComment)
  have marked : ¬ (c = '#' ∨ c = ';') := by
    rintro (same | same)
    · exact noHash same
    · exact noComment c (by simp) same
  unfold stripComment
  rw [trimmed]
  simp only [if_neg marked, whole, Text.trimEnd_eq last ends]

end Words

namespace Line

theorem read?_some {number : Nat} {s : String} {l : Line} (kept : read? number s = some l) :
    ∃ text command operands, Words.stripComment s.toList = some text ∧
      Words.split text = command :: operands ∧
      l = ⟨number, String.ofList text, String.ofList command, operands.map String.ofList⟩ := by
  unfold read? at kept
  split at kept
  · cases kept
  · rename_i text stripped
    split at kept
    · cases kept
    · rename_i command operands words
      exact ⟨text, command, operands, stripped, words, (Option.some.inj kept).symm⟩

end Line

namespace Listing

theorem mem_ofLines {first : Nat} {ls : List (List Char)} {l : Line} (member : l ∈ ofLines first ls) :
    ∃ number, ∃ line ∈ ls, Line.read? number (String.ofList line) = some l := by
  induction ls generalizing first with
  | nil => cases member
  | cons line ls ih =>
    unfold ofLines at member
    cases found : Line.read? first (String.ofList line) with
    | none =>
      rw [found] at member
      obtain ⟨number, other, among, kept⟩ := ih member
      exact ⟨number, other, List.mem_cons_of_mem _ among, kept⟩
    | some read =>
      rw [found] at member
      rcases List.mem_cons.mp member with rfl | later
      · exact ⟨first, line, by simp, found⟩
      · obtain ⟨number, other, among, kept⟩ := ih later
        exact ⟨number, other, List.mem_cons_of_mem _ among, kept⟩

end Listing

end RegisterMachine
