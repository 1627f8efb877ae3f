import Mathlib.Data.List.Chain
import RegisterMachine.Proofs.Grouping
import RegisterMachine.Proofs.Objects

/-!
Quoted strings as operands. A quote ends the string only before a blank or at the end of the text. So a
text in quotes is one operand exactly if no quote in it has a blank right after it (`split_quoted`): then
its pieces close the operand (`fills_of_sealed`), and otherwise fewer of them do (`fills_early`).
-/

namespace RegisterMachine.Words

open Text (isBlank)

/-- No quote has a blank right after it. -/
def Sealed (cs : List Char) : Prop := cs.IsChain fun c d => ¬ (c = '"' ∧ isBlank d = true)

instance : DecidablePred Sealed := fun _ => inferInstanceAs (Decidable (List.IsChain _ _))

theorem sealed_iff (cs : List Char) :
    Sealed cs ↔ ¬ ∃ front d back, cs = front ++ '"' :: d :: back ∧ isBlank d = true := by
  rw [Sealed, List.isChain_iff_forall_rel_of_append_cons_cons]
  constructor
  · rintro apart ⟨front, d, back, whole, blank⟩
    exact apart whole ⟨rfl, blank⟩
  · rintro none c d front back whole ⟨rfl, blank⟩
    exact none ⟨front, d, back, whole, blank⟩

theorem sealed_append (cs ds : List Char) :
    Sealed (cs ++ ds) ↔
      Sealed cs ∧ Sealed ds ∧ ¬ (cs.getLast? = some '"' ∧ ∃ d ∈ ds.head?, isBlank d = true) := by
  rw [Sealed, List.isChain_append]
  refine and_congr_right fun _ => and_congr_right fun _ => ?_
  constructor
  · rintro apart ⟨last, d, first, blank⟩
    exact apart '"' last d first ⟨rfl, blank⟩
  · rintro none c last d first ⟨rfl, blank⟩
    exact none ⟨last, d, first, blank⟩

theorem sealed_of_letters {cs : List Char} (letters : ∀ c ∈ cs, isBlank c = false) : Sealed cs := by
  rw [sealed_iff]
  rintro ⟨front, d, back, rfl, blank⟩
  rw [letters d (by simp)] at blank
  cases blank

theorem sealed_of_blanks {cs : List Char} (blanks : ∀ c ∈ cs, isBlank c = true) : Sealed cs := by
  rw [sealed_iff]
  rintro ⟨front, d, back, rfl, _⟩
  have blank := blanks '"' (by simp)
  cases blank

/-- A quote at the end has nothing after it. -/
theorem sealed_concat (cs : List Char) : Sealed (cs ++ ['"']) ↔ Sealed cs := by
  rw [sealed_append]
  constructor
  · intro both
    exact both.1
  · intro before
    refine ⟨before, .singleton _, ?_⟩
    rintro ⟨_, d, ⟨⟩, blank⟩
    cases blank

/-- Blanks before a text hold no quote. -/
theorem sealed_gap {gap : List Char} (blanks : ∀ c ∈ gap, isBlank c = true) (cs : List Char) :
    Sealed (gap ++ cs) ↔ Sealed cs := by
  rw [sealed_append]
  constructor
  · intro all
    exact all.2.1
  · intro after
    refine ⟨sealed_of_blanks blanks, after, ?_⟩
    rintro ⟨last, _⟩
    have quote := blanks '"' (List.mem_of_getLast? last)
    cases quote

/-- Where a sealed text goes on after a word, that word does not end with a quote. -/
theorem sealed_more {w : List Char} (letters : ∀ c ∈ w, isBlank c = false) {p : Piece} (later : p.Later)
    (ps : List Piece) :
    Sealed (w ++ spell (p :: ps)) ↔ w.getLast? ≠ some '"' ∧ Sealed (p.word ++ spell ps) := by
  obtain ⟨d, gap, same⟩ := List.exists_cons_of_ne_nil later.apart
  have next : ∃ d ∈ (p.gap ++ (p.word ++ spell ps)).head?, isBlank d = true := by
    refine ⟨d, by simp [same], ?_⟩
    exact later.gap d (by simp [same])
  rw [spell_cons, sealed_append, sealed_gap later.gap]
  constructor
  · rintro ⟨_, rest, apart⟩
    exact ⟨fun last => apart ⟨last, next⟩, rest⟩
  · rintro ⟨unquoted, rest⟩
    exact ⟨sealed_of_letters letters, rest, fun both => unquoted both.1⟩

/-- Pieces that spell a sealed text up to its last quote close the operand. -/
theorem fills_of_sealed {w : List Char} (letters : ∀ c ∈ w, isBlank c = false) {ps : List Piece}
    (later : ∀ p ∈ ps, p.Later) (sealed : Sealed (w ++ spell ps))
    (ends : (w ++ spell ps).getLast? = some '"') : Fills (Awaiting.quote.after w) ps := by
  -- The word goes along without the opening quote: it is empty if the string begins with a blank.
  induction ps generalizing w with
  | nil =>
    rw [spell_nil, List.append_nil] at ends
    simpa [Awaiting.after, ends] using fills_nil
  | cons p ps ih =>
    rw [List.forall_mem_cons] at later
    obtain ⟨unquoted, rest⟩ := (sealed_more letters later.1 ps).mp sealed
    have filled : p.word ++ spell ps ≠ [] := by simp [later.1.filled]
    have ended : (p.word ++ spell ps).getLast? = some '"' := by
      rwa [spell_cons, ← List.append_assoc, List.getLast?_append_of_ne_nil _ filled] at ends
    have next := (ih later.1.word later.2 rest ended).more
    simpa [Awaiting.after, unquoted] using next

/-- A text that is not sealed is closed before its end. -/
theorem fills_early {w : List Char} (letters : ∀ c ∈ w, isBlank c = false) {ps : List Piece}
    (later : ∀ p ∈ ps, p.Later) (unsealed : ¬ Sealed (w ++ spell ps)) :
    ∃ front back, ps = front ++ back ∧ back ≠ [] ∧ Fills (Awaiting.quote.after w) front := by
  induction ps generalizing w with
  | nil =>
    rw [spell_nil, List.append_nil] at unsealed
    exact absurd (sealed_of_letters letters) unsealed
  | cons p ps ih =>
    rw [List.forall_mem_cons] at later
    rw [sealed_more letters later.1] at unsealed
    by_cases closed : w.getLast? = some '"'
    · refine ⟨[], p :: ps, rfl, List.cons_ne_nil p ps, ?_⟩
      simpa [Awaiting.after, closed] using fills_nil
    · have rest : ¬ Sealed (p.word ++ spell ps) := fun sealed => unsealed ⟨closed, sealed⟩
      obtain ⟨front, back, rfl, more, fills⟩ := ih later.1.word later.2 rest
      refine ⟨p :: front, back, rfl, more, ?_⟩
      simpa [Awaiting.after, closed] using fills.more

section Between
variable {command : List Char} (filled : command ≠ []) (letters : ∀ c ∈ command, isBlank c = false)
include filled letters

theorem split_command (rest : List Char) :
    split (command ++ ' ' :: rest) = command :: group none (pieces (' ' :: rest)) := by
  have begins : ∀ c ∈ (' ' :: rest).head?, isBlank c = true := by
    rintro c ⟨⟩
    decide
  rw [split, pieces_word filled letters begins]

/-- The pieces of a text in quotes, with what stands after them. -/
theorem split_opened (s rest : List Char) :
    ∃ w ps, (∀ c ∈ w, isBlank c = false) ∧ (∀ p ∈ ps, p.Later) ∧ s ++ ['"'] = w ++ spell ps ∧
      split (command ++ ' ' :: ('"' :: (s ++ ['"']) ++ ' ' :: rest)) =
        command :: carryOn ('"' :: w) (Awaiting.quote.after w) (ps ++ pieces (' ' :: rest)) := by
  have last : ('"' :: (s ++ ['"'])).getLast? = some '"' := by
    rw [← List.cons_append, List.getLast?_concat]
  obtain ⟨w, ps, found, whole⟩ := pieces_lettered (by decide) last (by decide)
  have spaced : Spaced (⟨[], '"' :: w⟩ :: ps) := found ▸ spaced_pieces _
  have plain : ∀ c ∈ w, isBlank c = false := by
    intro c member
    exact (spaced.sound ⟨[], '"' :: w⟩ (by simp)).word c (List.mem_cons_of_mem _ member)
  refine ⟨w, ps, plain, spaced.later, whole, ?_⟩
  have begins : ∀ c ∈ (' ' :: rest).head?, isBlank c = true := by
    rintro c ⟨⟩
    decide
  have spelled := pieces_spell_append spaced begins
  rw [spell_cons, List.nil_append, List.cons_append, ← whole] at spelled
  rw [split_command filled letters, pieces_blank (by decide), spelled, List.cons_append,
    List.modifyHead_cons, group_cons]
  rfl

theorem split_sealed {s : List Char} (sealed : Sealed s) (rest : List Char) :
    split (command ++ ' ' :: ('"' :: (s ++ ['"']) ++ ' ' :: rest)) =
      command :: ('"' :: (s ++ ['"'])) :: (split (command ++ ' ' :: rest)).tail := by
  obtain ⟨w, ps, plain, later, whole, same⟩ := split_opened filled letters s rest
  have ends : (w ++ spell ps).getLast? = some '"' := by
    rw [← whole, List.getLast?_concat]
  have fills := fills_of_sealed plain later (whole ▸ (sealed_concat s).mpr sealed) ends
  rw [same, fills, split_command filled letters, whole]
  rfl

/-- A text that is not sealed is cut short. -/
theorem split_unsealed {s : List Char} (unsealed : ¬ Sealed s) (rest : List Char) :
    (split (command ++ ' ' :: ('"' :: (s ++ ['"']) ++ ' ' :: rest)))[1]? ≠
      some ('"' :: (s ++ ['"'])) := by
  obtain ⟨w, ps, plain, later, whole, same⟩ := split_opened filled letters s rest
  have unclosed : ¬ Sealed (w ++ spell ps) := by
    rw [← whole, sealed_concat]
    exact unsealed
  obtain ⟨front, back, rfl, more, fills⟩ := fills_early plain later unclosed
  obtain ⟨p, others, rfl⟩ := List.exists_cons_of_ne_nil more
  have word := (later p (by simp)).filled
  rw [same, List.append_assoc, fills, whole]
  intro found
  -- The operand would have to go on with what the other pieces spell.
  have cut : w ++ spell front = w ++ spell (front ++ p :: others) := by simpa using found
  have none : spell (p :: others) = [] := by simpa [spell] using cut
  simp [word] at none

end Between

theorem resolve_quoted (s : List Char) (bank : Bank) :
    Operand.resolve (String.ofList ('"' :: (s ++ ['"']))) bank =
      ⟨[], [], .ok (.string (String.ofList s))⟩ := by
  have unquoted : Operand.unquote? ('"' :: (s ++ ['"'])) = some s := by
    simp [Operand.unquote?]
  rw [Operand.resolve, String.toList_ofList, unquoted]
  rfl

/-- A text in quotes is one operand exactly if no quote in it has a blank right after it. Then the
operands after it are as they would be without it, and what it stands for is the text itself. -/
theorem split_quoted {command : List Char} (filled : command ≠ [])
    (letters : ∀ c ∈ command, isBlank c = false) (s rest : List Char) :
    let quoted := '"' :: (s ++ ['"'])
    let words := split (command ++ ' ' :: (quoted ++ ' ' :: rest))
    let broken := ∃ front d back, s = front ++ '"' :: d :: back ∧ isBlank d = true
    (words[1]? = some quoted ↔ ¬ broken) ∧
      (¬ broken → words.drop 2 = (split (command ++ ' ' :: rest)).tail ∧
        ∀ bank, Operand.resolve (String.ofList quoted) bank =
          ⟨[], [], .ok (.string (String.ofList s))⟩) := by
  intro quoted words broken
  have sealed : ¬ broken ↔ Sealed s := (sealed_iff s).symm
  rw [sealed]
  refine ⟨⟨?_, ?_⟩, ?_⟩
  · intro whole
    by_contra unsealed
    exact split_unsealed filled letters unsealed rest whole
  · intro holds
    rw [show words = _ from split_sealed filled letters holds rest]
    rfl
  · intro holds
    rw [show words = _ from split_sealed filled letters holds rest]
    exact ⟨rfl, resolve_quoted s⟩

/-- A blank first, quotes inside and at the end; and a quote that ends the string early. -/
theorem split_quoted_inner :
    let words := split ("cmp".toList ++ ' ' :: ("\"\u3000a\"b  \"\"".toList ++ ' ' :: "1 rg0".toList))
    words[1]? = some "\"\u3000a\"b  \"\"".toList ∧ words.drop 2 = ["1".toList, "rg0".toList] ∧
      (split ("mov".toList ++ ' ' :: ("\"a\" b\"".toList ++ ' ' :: "x".toList)))[1]? ≠
        some "\"a\" b\"".toList := by
  have whole : ¬ ∃ front d back, "\u3000a\"b  \"".toList = front ++ '"' :: d :: back ∧
      isBlank d = true := (sealed_iff _).mp (by decide +kernel)
  have cmp : ∀ c ∈ "cmp".toList, isBlank c = false := by simp [isBlank]
  have mov : ∀ c ∈ "mov".toList, isBlank c = false := by simp [isBlank]
  have plain : (split ("cmp".toList ++ ' ' :: "1 rg0".toList)).tail = ["1".toList, "rg0".toList] := by
    decide +kernel
  obtain ⟨first, others⟩ := split_quoted (by decide) cmp "\u3000a\"b  \"".toList "1 rg0".toList
  obtain ⟨cut, _⟩ := split_quoted (by decide) mov "a\" b".toList "x".toList
  refine ⟨first.mpr whole, (others whole).1.trans plain, ?_⟩
  intro same
  exact cut.mp same ⟨"a".toList, ' ', "b".toList, rfl, rfl⟩

end RegisterMachine.Words
