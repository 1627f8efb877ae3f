import Mathlib.Data.List.Forall2
import RegisterMachine.Proofs.Pieces

/-!
What is left of the lines of a text. A line without its comment and outer blanks is stripped for good
(`Words.Stripped.again`), and has a command. A listing has a line for everything that the text keeps of
its lines (`Listing.ofLines_holds`), and these alone, one line each, are a text that keeps the same
(`Words.kept_normal`).
-/

namespace RegisterMachine

namespace Text

/-- The last line of a text needs no line feed. -/
theorem lines_single {line : List Char} (noFeed : '\n' ∉ line) (filled : line ≠ []) :
    lines line = [line] := by
  induction line with
  | nil => exact absurd rfl filled
  | cons c line ih =>
    have feed : c ≠ '\n' := fun same => noFeed (by simp [same])
    have noMore : '\n' ∉ line := fun member => noFeed (List.mem_cons_of_mem _ member)
    have alone : lines line = if line = [] then [] else [line] := by
      split
      · rename_i empty
        rw [empty, lines]
      · rename_i more
        exact ih noMore more
    rw [lines, alone]
    · by_cases empty : line = []
      · simp [empty]
      · simp [empty]
    · exact feed
    · intro other _ begins
      exact noMore (by simp [begins])

/-- Lines joined by line feeds are read back. -/
theorem lines_joined {ls : List (List Char)} (filled : ∀ line ∈ ls, line ≠ [])
    (noFeed : ∀ line ∈ ls, '\n' ∉ line) (noReturn : ∀ line ∈ ls, line.getLast? ≠ some '\r') :
    lines (['\n'].intercalate ls) = ls := by
  induction ls with
  | nil => rfl
  | cons line ls ih =>
    cases ls with
    | nil =>
      have single := lines_single (noFeed line (by simp)) (filled line (by simp))
      simpa using single
    | cons next ls =>
      have later := ih (fun l member => filled l (List.mem_cons_of_mem _ member))
        (fun l member => noFeed l (List.mem_cons_of_mem _ member))
        (fun l member => noReturn l (List.mem_cons_of_mem _ member))
      rw [List.intercalate_cons_cons, List.append_assoc, List.singleton_append,
        lines_feed (noFeed line (by simp)) (noReturn line (by simp)), later]

theorem trimEnd_letter {c : Char} (letter : isBlank c = false) (cs : List Char) :
    ∃ rest, trimEnd (c :: cs) = c :: rest := by
  rw [trimEnd, List.reverse_cons, List.dropWhile_append]
  split
  · exact ⟨[], by simp [letter]⟩
  · exact ⟨_, List.reverse_concat⟩

theorem trimEnd_ends {cs : List Char} (filled : trimEnd cs ≠ []) :
    ∃ c, (trimEnd cs).getLast? = some c ∧ isBlank c = false := by
  have first : cs.reverse.dropWhile isBlank ≠ [] := fun none => filled (by rw [trimEnd, none]; rfl)
  refine ⟨_, ?_, List.head_dropWhile_not isBlank first⟩
  rw [trimEnd, List.getLast?_reverse, List.head?_eq_some_head first]

theorem trim_begins {cs rest : List Char} {c : Char} (trimmed : trim cs = c :: rest) :
    isBlank c = false := by
  rcases started : trimStart cs with _ | ⟨d, more⟩
  · rw [trim, started] at trimmed
    cases trimmed
  · have letter : isBlank d = false := by
      have first := List.head?_dropWhile_not isBlank cs
      rw [show cs.dropWhile isBlank = d :: more from started] at first
      exact first
    obtain ⟨left, same⟩ := trimEnd_letter letter more
    rw [trim, started, same] at trimmed
    cases trimmed
    exact letter

end Text

namespace Words

open Text (isBlank trimEnd)

/-- A text without a comment in it and without blanks around it. -/
structure Stripped (text : List Char) : Prop where
  begins : ∃ c rest, text = c :: rest ∧ isBlank c = false ∧ c ≠ '#'
  plain : ∀ c ∈ text, c ≠ ';'
  ends : ∃ c, text.getLast? = some c ∧ isBlank c = false

theorem stripped {cs text : List Char} (left : stripComment cs = some text) : Stripped text := by
  have plain : ∀ c ∈ text, c ≠ ';' := fun c member => (mem_of_stripComment left member).2
  unfold stripComment at left
  split at left
  · cases left
  · rename_i c rest trimmed
    split at left
    · cases left
    · rename_i unmarked
      have letter := Text.trim_begins trimmed
      have first : (c :: rest).takeWhile (· ≠ ';') = c :: rest.takeWhile (· ≠ ';') := by
        have other : c ≠ ';' := fun same => unmarked (.inr same)
        simp [other]
      obtain ⟨more, begins⟩ := Text.trimEnd_letter letter (rest.takeWhile (· ≠ ';'))
      rw [first] at left
      cases left
      refine ⟨⟨c, more, begins, letter, fun same => unmarked (.inl same)⟩, plain, ?_⟩
      apply Text.trimEnd_ends
      rw [begins]
      exact List.cons_ne_nil c more

/-- What is left of a line is left of it once more. -/
theorem Stripped.again {text : List Char} (stripped : Stripped text) :
    stripComment text = some text := by
  obtain ⟨c, rest, rfl, letter, noHash⟩ := stripped.begins
  obtain ⟨d, last, ends⟩ := stripped.ends
  exact stripComment_eq letter noHash stripped.plain last ends

theorem Stripped.split {text : List Char} (stripped : Stripped text) :
    ∃ command operands, split text = command :: operands := by
  obtain ⟨c, rest, rfl, _⟩ := stripped.begins
  obtain ⟨d, last, ends⟩ := stripped.ends
  have spelled := spell_whole last ends
  unfold Words.split
  cases found : pieces (c :: rest) with
  | nil =>
    rw [found] at spelled
    cases spelled
  | cons p ps => exact ⟨p.word, group none ps, rfl⟩

/-- What a text keeps of its lines: all that they say, without comments and outer blanks. -/
def kept (cs : List Char) : List (List Char) := (Text.lines cs).filterMap stripComment

/-- What a text keeps, one line each and nothing else. -/
def normal (cs : List Char) : List Char := ['\n'].intercalate (kept cs)

theorem kept_stripped {cs text : List Char} (member : text ∈ kept cs) :
    Stripped text ∧ '\n' ∉ text := by
  obtain ⟨line, among, left⟩ := List.mem_filterMap.mp member
  exact ⟨stripped left,
    fun feed => Text.feed_not_mem among (mem_of_stripComment left feed).1⟩

/-- The normal form keeps what the text does. -/
theorem kept_normal (cs : List Char) : kept (normal cs) = kept cs := by
  have whole : Text.lines (normal cs) = kept cs := by
    apply Text.lines_joined
    · intro text member
      obtain ⟨c, rest, rfl, _⟩ := (kept_stripped member).1.begins
      simp
    · intro text member
      exact (kept_stripped member).2
    · intro text member returned
      obtain ⟨c, last, letter⟩ := (kept_stripped member).1.ends
      cases returned.symm.trans last
      exact absurd letter (by decide)
  have again : ∀ text ∈ kept cs, stripComment text = some text :=
    fun text member => (kept_stripped member).1.again
  rw [kept, whole, List.filterMap_congr again, List.filterMap_some]

end Words

namespace Line

/-- The line is one that says the text, wherever it stands. -/
structure Holds (l : Line) (said : List Char) : Prop where
  text : l.text = String.ofList said
  words : l.command :: l.operands = (Words.split said).map String.ofList

theorem read?_none {raw : List Char} (left : Words.stripComment raw = none) (number : Nat) :
    read? number (String.ofList raw) = none := by
  simp only [read?, String.toList_ofList, left]

/-- Every line of which something is left can be read. -/
theorem read?_left {raw text : List Char} (left : Words.stripComment raw = some text) (number : Nat) :
    ∃ l, read? number (String.ofList raw) = some l ∧ l.number = number ∧ l.Holds text := by
  obtain ⟨command, operands, words⟩ := (Words.stripped left).split
  simp only [read?, String.toList_ofList, left, words]
  exact ⟨_, rfl, rfl, rfl, by simp [words]⟩

end Line

namespace Listing

/-- A listing has a line for everything that the text keeps. -/
theorem ofLines_holds (first : Nat) (ls : List (List Char)) :
    List.Forall₂ Line.Holds (ofLines first ls) (ls.filterMap Words.stripComment) := by
  induction ls generalizing first with
  | nil => exact .nil
  | cons line ls ih =>
    cases left : Words.stripComment line with
    | none =>
      rw [List.filterMap_cons_none left, ofLines, Line.read?_none left]
      exact ih (first + 1)
    | some text =>
      obtain ⟨l, read, _, holds⟩ := Line.read?_left left first
      rw [List.filterMap_cons_some left, ofLines, read]
      exact .cons holds (ih (first + 1))

end Listing

end RegisterMachine
