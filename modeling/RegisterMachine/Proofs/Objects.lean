import RegisterMachine.Operand
import RegisterMachine.Proofs.Grouping

/-!
Objects in JSON as operands. All that a JSON text holds between two places is plain characters, whole
strings and pairs of brackets with the like between them: `Skips` says so, and every reader skips in
this way. Going through such a text, the nesting of an operand never comes down to where it began
(`Skips.closes`), so an object is one operand whatever it holds (`split_object`).
-/

namespace RegisterMachine

namespace Json

/-- The characters that brackets and strings are made of. -/
def marks : List Char := ['"', '\x7b', '\x7d', '[', ']']

/-- From after an opening quote to after the quote that closes the string. -/
inductive Quoted : List Char → List Char → Prop
  | close (rest : List Char) : Quoted ('"' :: rest) rest
  | letter {c : Char} {cs rest : List Char} (noQuote : c ≠ '"') (noEscape : c ≠ '\\') :
      Quoted cs rest → Quoted (c :: cs) rest
  | escape {c : Char} {cs rest : List Char} (letter : Text.isBlank c = false) :
      Quoted cs rest → Quoted ('\\' :: c :: cs) rest

/-- From one place of a text to another with every string and bracket between them closed. -/
inductive Skips : List Char → List Char → Prop
  | refl (cs : List Char) : Skips cs cs
  | plain {c : Char} {cs rest : List Char} (unmarked : c ∉ marks) : Skips cs rest →
      Skips (c :: cs) rest
  | string {cs after rest : List Char} : Quoted cs after → Skips after rest → Skips ('"' :: cs) rest
  | nested {o c : Char} {cs after rest : List Char} (opens : o = '\x7b' ∨ o = '[')
      (closes : c = '\x7d' ∨ c = ']') : Skips cs (c :: after) → Skips after rest → Skips (o :: cs) rest

theorem Skips.trans {a b c : List Char} (first : Skips a b) (second : Skips b c) : Skips a c := by
  induction first with
  | refl => exact second
  | plain unmarked _ ih => exact .plain unmarked (ih second)
  | string quoted _ ih => exact .string quoted (ih second)
  | nested opens closes inner _ _ ih => exact .nested opens closes inner (ih second)

theorem Quoted.suffix {cs rest : List Char} (quoted : Quoted cs rest) : rest <:+ cs := by
  induction quoted with
  | close => exact List.suffix_cons _ _
  | letter _ _ _ ih => exact ih.trans (List.suffix_cons _ _)
  | escape _ _ ih => exact ih.trans ((List.suffix_cons _ _).trans (List.suffix_cons _ _))

theorem Skips.suffix {cs rest : List Char} (skips : Skips cs rest) : rest <:+ cs := by
  induction skips with
  | refl => exact List.suffix_rfl
  | plain _ _ ih => exact ih.trans (List.suffix_cons _ _)
  | string quoted _ ih => exact ih.trans (quoted.suffix.trans (List.suffix_cons _ _))
  | nested _ _ _ _ inner outer =>
    apply outer.trans
    exact (List.suffix_cons _ _).trans (inner.trans (List.suffix_cons _ _))

theorem skips_dropWhile {p : Char → Bool} (unmarked : ∀ c ∈ marks, p c = false) (cs : List Char) :
    Skips cs (cs.dropWhile p) := by
  induction cs with
  | nil => exact .refl []
  | cons c cs ih =>
    rw [List.dropWhile_cons]
    split
    · rename_i holds
      refine .plain (fun marked => ?_) ih
      rw [unmarked c marked] at holds
      cases holds
    · exact .refl _

theorem skips_space (cs : List Char) : Skips cs (skipSpace cs) := by
  apply skips_dropWhile
  simp [marks, isSpace]

theorem skips_digits (cs : List Char) : Skips cs (cs.dropWhile Char.isDigit) := by
  apply skips_dropWhile
  simp [marks, Char.isDigit]

theorem skips_sign (cs : List Char) : Skips cs (Number.readSign cs).2 := by
  unfold Number.readSign
  split
  · exact .plain (by decide) (.refl _)
  · exact .plain (by decide) (.refl _)
  · exact .refl _

section Numbers
variable {negative : Bool} {n dropped : Nat} {exponent : Int} {cs rest : List Char} {x : JsonNumber}

theorem readScaled_rest (read : readScaled negative n exponent cs = .ok (x, rest)) : rest = cs := by
  unfold readScaled at read
  split at read
  · cases read
  · cases read
    rfl

theorem readExponent_skips (read : readExponent negative n exponent cs = .ok (x, rest)) :
    Skips cs rest := by
  have whole : rest = (Number.readSign cs).2.dropWhile Char.isDigit := by
    unfold readExponent at read
    dsimp only at read
    split at read
    · split at read <;> cases read
    · split at read
      · exact readScaled_rest read
      · split at read
        · cases read
        · cases read
          rfl
  rw [whole]
  exact (skips_sign cs).trans (skips_digits _)

theorem exponentMark_skips (marked : exponentMark? cs = some rest) : Skips cs rest := by
  unfold exponentMark? at marked
  split at marked
  · rename_i c tail
    split at marked
    · rename_i mark
      cases marked
      refine .plain ?_ (.refl _)
      rcases mark with rfl | rfl <;> decide
    · cases marked
  · cases marked

theorem readFraction_skips (read : readFraction negative n exponent cs = .ok (x, rest)) :
    Skips cs rest := by
  unfold readFraction at read
  dsimp only at read
  split at read
  · split at read <;> cases read
  · apply (skips_digits cs).trans
    split at read
    · rename_i marked
      exact (exponentMark_skips marked).trans (readExponent_skips read)
    · rw [readScaled_rest read]
      exact .refl _

theorem readTail_skips (read : readTail negative n dropped cs = .ok (x, rest)) : Skips cs rest := by
  unfold readTail at read
  split at read
  · exact .plain (by decide) (readFraction_skips read)
  · split at read
    · rename_i marked
      exact (exponentMark_skips marked).trans (readExponent_skips read)
    · split at read
      · rw [readScaled_rest read]
        exact .refl _
      · split at read
        · cases read
          exact .refl _
        · split at read <;> cases read <;> exact .refl _

theorem readNumber_skips (read : readNumber negative cs = .ok (x, rest)) : Skips cs rest := by
  unfold readNumber at read
  dsimp only at read
  split at read
  · split at read <;> cases read
  · cases read
  · exact (skips_digits cs).trans (readTail_skips read)

end Numbers

section Strings
variable {cs after : List Char} {c : Char}

theorem hexValue_letter {n : Nat} (hex : hexValue? c = some n) : c ≠ '"' ∧ c ≠ '\\' := by
  constructor
  · rintro rfl
    cases hex
  · rintro rfl
    cases hex

/-- Four hexadecimal digits belong to a string. -/
theorem readHex_quoted {n : Nat} (read : readHex cs = .ok (n, after)) {rest : List Char}
    (quoted : Quoted after rest) : Quoted cs rest := by
  unfold readHex at read
  split at read
  · cases read
  · split at read
    · rename_i found
      cases read
      unfold hexNumber? at found
      split at found
      · rename_i c₁ c₂ c₃ c₄ taken
        simp only [Option.bind_eq_bind, Option.bind_eq_some_iff] at found
        obtain ⟨_, first, _, second, _, third, _, fourth, _⟩ := found
        rw [← List.take_append_drop 4 cs, taken]
        have letter {d : Char} {value : Nat} (hex : hexValue? d = some value) {tail : List Char}
            (later : Quoted tail rest) : Quoted (d :: tail) rest :=
          .letter (hexValue_letter hex).1 (hexValue_letter hex).2 later
        exact letter first (letter second (letter third (letter fourth quoted)))
      · cases found
    · cases read

theorem readUnicode_quoted (read : readUnicode cs = .ok (c, after)) {rest : List Char}
    (quoted : Quoted after rest) : Quoted cs rest := by
  unfold readUnicode at read
  split at read
  · cases read
  · rename_i n tail first
    apply readHex_quoted first
    split at read
    · cases read
    · split at read
      · obtain ⟨_, rfl⟩ := Prod.mk.inj (Except.ok.inj read)
        exact quoted
      · split at read
        · cases read
        · cases read
        · split at read
          · cases read
          · rename_i second
            split at read
            · obtain ⟨_, rfl⟩ := Prod.mk.inj (Except.ok.inj read)
              exact .escape (by decide) (readHex_quoted second quoted)
            · cases read
        · cases read
        · cases read

/-- No blank comes after a backslash. -/
theorem readEscape_quoted (read : readEscape cs = .ok (c, after)) {rest : List Char}
    (quoted : Quoted after rest) : Quoted ('\\' :: cs) rest := by
  unfold readEscape at read
  split at read
  case h_1 => cases read
  case h_10 => exact .escape (by decide) (readUnicode_quoted read quoted)
  case h_11 => cases read
  all_goals
    cases read
    exact .escape (by decide) quoted

theorem readCharacters_quoted {bound : Nat} {seen rest : List Char} {s : String}
    (read : readCharacters bound seen cs = .ok (s, rest)) : Quoted cs rest := by
  fun_induction readCharacters bound seen cs with
  | case1 | case2 => cases read
  | case3 =>
    cases read
    exact .close _
  | case4 => cases read
  | case5 bound seen cs c tail escape ih => exact readEscape_quoted escape (ih read)
  | case6 => cases read
  | case7 bound seen c cs noQuote noEscape _ ih =>
    exact .letter (fun same => noQuote same) (fun same => noEscape same) (ih read)

theorem readString_quoted {s : String} {rest : List Char} (read : readString cs = .ok (s, rest)) :
    Quoted cs rest :=
  readCharacters_quoted read

end Strings

/-- What follows a reader that is done is as good as what it has read. -/
def Skipping {α : Type} (read : List Char → Reading α) : Prop :=
  ∀ cs a rest, read cs = .ok (a, rest) → Skips cs rest

theorem readLetters_skips {letters : List Char} (unmarked : ∀ c ∈ letters, c ∉ marks) :
    Skipping (readLetters letters) := by
  intro cs a rest read
  induction letters generalizing cs with
  | nil =>
    cases read
    exact .refl _
  | cons letter letters ih =>
    cases cs with
    | nil => cases read
    | cons c cs =>
      simp only [readLetters] at read
      split at read
      · rename_i same
        refine .plain (same ▸ unmarked letter (by simp)) (ih ?_ cs read)
        exact fun d member => unmarked d (List.mem_cons_of_mem _ member)
      · cases read

theorem map_ok {α β : Type} {x : Reading α} {f : α × List Char → β × List Char} {b : β}
    {rest : List Char} (mapped : x.map f = .ok (b, rest)) : ∃ a after, x = .ok (a, after) ∧
      f (a, after) = (b, rest) := by
  cases x with
  | error e => cases mapped
  | ok pair => exact ⟨pair.1, pair.2, rfl, Except.ok.inj mapped⟩

/-- A value that is written as a word. -/
theorem readWord_skips {letter : Char} {letters : List Char}
    (unmarked : ∀ c ∈ letter :: letters, c ∉ marks) {f : Unit × List Char → Json × List Char}
    (passes : ∀ u after, (f (u, after)).2 = after) {cs rest : List Char} {a : Json}
    (read : (readLetters letters cs).map f = .ok (a, rest)) : Skips (letter :: cs) rest := by
  obtain ⟨u, after, found, same⟩ := map_ok read
  have left : after = rest := by rw [← passes u after, same]
  refine .plain (unmarked letter (by simp)) (left ▸ readLetters_skips ?_ _ _ _ found)
  exact fun c member => unmarked c (List.mem_cons_of_mem _ member)

theorem readScalar_skips : Skipping readScalar := by
  intro cs a rest read
  unfold readScalar at read
  split at read
  · cases read
  · exact readWord_skips (by simp [marks]) (fun _ _ => rfl) read
  · exact readWord_skips (by simp [marks]) (fun _ _ => rfl) read
  · exact readWord_skips (by simp [marks]) (fun _ _ => rfl) read
  · obtain ⟨_, after, quoted, same⟩ := map_ok read
    cases same
    exact .string (readString_quoted quoted) (.refl _)
  · obtain ⟨_, after, digits, same⟩ := map_ok read
    cases same
    exact .plain (by decide) (readNumber_skips digits)
  · split at read
    · obtain ⟨_, after, digits, same⟩ := map_ok read
      cases same
      exact readNumber_skips digits
    · cases read

section Nested
variable {item : List Char → Reading Json} (skipping : Skipping item)
include skipping

/-- From an item of an array up to the bracket that closes it. -/
theorem readItems_skips {bound : Nat} {seen items : List Json} {cs rest : List Char}
    (read : readItems item bound seen cs = .ok (items, rest)) : Skips cs (']' :: rest) := by
  induction bound generalizing seen cs with
  | zero => cases read
  | succ bound ih =>
    apply (skips_space cs).trans
    unfold readItems at read
    split at read
    · cases read
    · rename_i tail found
      cases read
      rw [found]
      exact .refl _
    · rename_i tail found
      rw [found]
      apply Skips.plain (by decide)
      apply (skips_space tail).trans
      split at read
      · cases read
      · cases read
      · split at read
        · cases read
        · rename_i one
          exact (skipping _ _ _ one).trans (ih read)
    · cases read

theorem readArray_skips {items : List Json} {cs rest : List Char}
    (read : readArray item cs = .ok (items, rest)) : Skips cs (']' :: rest) := by
  apply (skips_space cs).trans
  unfold readArray at read
  split at read
  · cases read
  · rename_i tail found
    cases read
    rw [found]
    exact .refl _
  · split at read
    · cases read
    · rename_i one
      exact (skipping _ _ _ one).trans (readItems_skips skipping read)

/-- From the opening quote of a key to the end of its value. -/
theorem readField_skips {field : String × Json} {cs rest : List Char}
    (read : readField item cs = .ok (field, rest)) : Skips ('"' :: cs) rest := by
  unfold readField at read
  split at read
  · cases read
  · rename_i after key
    apply Skips.string (readString_quoted key)
    apply (skips_space after).trans
    split at read
    · cases read
    · rename_i tail found
      obtain ⟨_, _, value, same⟩ := map_ok read
      cases same
      rw [found]
      exact .plain (by decide) (skipping _ _ _ value)
    · cases read

theorem readFields_skips {bound : Nat} {seen fields : Table Json} {cs rest : List Char}
    (read : readFields item bound seen cs = .ok (fields, rest)) : Skips cs ('\x7d' :: rest) := by
  induction bound generalizing seen cs with
  | zero => cases read
  | succ bound ih =>
    apply (skips_space cs).trans
    unfold readFields at read
    split at read
    · cases read
    · rename_i tail found
      cases read
      rw [found]
      exact .refl _
    · rename_i tail found
      rw [found]
      apply Skips.plain (by decide)
      apply (skips_space tail).trans
      split at read
      · cases read
      · cases read
      · rename_i key begins
        split at read
        · cases read
        · rename_i field
          rw [begins]
          exact (readField_skips skipping field).trans (ih read)
      · cases read
    · cases read

theorem readObject_skips {fields : Table Json} {cs rest : List Char}
    (read : readObject item cs = .ok (fields, rest)) : Skips cs ('\x7d' :: rest) := by
  apply (skips_space cs).trans
  unfold readObject at read
  split at read
  · cases read
  · rename_i tail found
    cases read
    rw [found]
    exact .refl _
  · rename_i key begins
    split at read
    · cases read
    · rename_i field
      rw [begins]
      exact (readField_skips skipping field).trans (readFields_skips skipping read)
  · cases read

end Nested

theorem readValue_skips (depth : Nat) : Skipping (readValue depth) := by
  induction depth with
  | zero =>
    intro cs a rest read
    apply (skips_space cs).trans
    unfold readValue at read
    split at read
    · cases read
    · cases read
    · exact readScalar_skips _ _ _ read
  | succ depth ih =>
    intro cs a rest read
    apply (skips_space cs).trans
    unfold readValue at read
    split at read
    · rename_i tail found
      obtain ⟨_, _, items, same⟩ := map_ok read
      cases same
      rw [found]
      exact .nested (.inr rfl) (.inr rfl) (readArray_skips ih items) (.refl _)
    · rename_i tail found
      obtain ⟨_, _, fields, same⟩ := map_ok read
      cases same
      rw [found]
      exact .nested (.inl rfl) (.inl rfl) (readObject_skips ih fields) (.refl _)
    · exact readScalar_skips _ _ _ read

theorem readValue_brace (depth : Nat) (cs : List Char) :
    readValue (depth + 1) ('\x7b' :: cs) =
      (readObject (readValue depth) cs).map fun (fields, cs) => (.object fields, cs) := rfl

/-- An object that is a whole text, and that a brace ends, is closed by that brace. -/
theorem parse_skips {cs : List Char} {v : Json} (parsed : parse ('\x7b' :: cs) = .ok v)
    (ends : ('\x7b' :: cs).getLast? = some '\x7d') : Skips cs ['\x7d'] := by
  unfold parse at parsed
  rw [readValue_brace 126] at parsed
  split at parsed
  · cases parsed
  · rename_i value rest read
    obtain ⟨_, _, fields, same⟩ := map_ok read
    cases same
    have skips := readObject_skips (readValue_skips 126) fields
    split at parsed
    · rename_i spaces
      cases List.eq_nil_or_concat rest with
      | inl none => exact none ▸ skips
      | inr more =>
        -- A text with something after the brace would end with a space.
        obtain ⟨front, d, rfl⟩ := more
        obtain ⟨before, rfl⟩ := skips.suffix
        have space : isSpace d = true := List.dropWhile_eq_nil_iff.mp spaces d (by simp)
        have whole : '\x7b' :: (before ++ '\x7d' :: front.concat d) =
            ('\x7b' :: (before ++ '\x7d' :: front)) ++ [d] := by simp
        rw [whole, List.getLast?_concat] at ends
        cases ends
        cases space
    · cases parsed

end Json

namespace Words

open Text (isBlank)

namespace Nesting

/-- Goes on to the end of the text with a bracket open all the way, and closes the last one there. No
blank comes after a backslash. -/
inductive Closes : Nesting → List Char → Prop
  | last {n : Nesting} {c : Char} (inside : 0 < n.depth) (balanced : (n.next c).isBalanced = true) :
      Closes n [c]
  | more {n : Nesting} {c : Char} {cs : List Char} (inside : 0 < n.depth)
      (calm : isBlank c = true → n.escaped = false) : Closes (n.next c) cs → Closes n (c :: cs)

theorem Closes.inside {n : Nesting} {cs : List Char} (closes : n.Closes cs) : 0 < n.depth := by
  cases closes with
  | last inside | more inside => exact inside

/-- Outside of strings only the marks count. -/
theorem next_plain {c : Char} (unmarked : c ∉ Json.marks) (depth : Nat) :
    next ⟨depth, false, false⟩ c = ⟨depth, false, false⟩ := by
  simp only [Json.marks, List.mem_cons, not_or] at unmarked
  simp [next, unmarked]

theorem next_blank {n : Nesting} {c : Char} (blank : isBlank c = true) (calm : n.escaped = false) :
    n.next c = n := by
  have letters : c ≠ '"' ∧ c ≠ '\\' ∧ c ≠ '\x7b' ∧ c ≠ '\x7d' ∧ c ≠ '[' ∧ c ≠ ']' := by
    refine ⟨?_, ?_, ?_, ?_, ?_, ?_⟩ <;> rintro rfl <;> cases blank
  obtain ⟨quote, slash, brace, unbrace, bracket, unbracket⟩ := letters
  simp [next, calm, quote, slash, brace, unbrace, bracket, unbracket]

end Nesting

end Words

namespace Json

open Words (Nesting)

theorem Quoted.closes {cs rest : List Char} (quoted : Quoted cs rest) {depth : Nat}
    (closes : Nesting.Closes ⟨depth + 1, false, false⟩ rest) :
    Nesting.Closes ⟨depth + 1, true, false⟩ cs := by
  induction quoted with
  | close => exact .more (Nat.succ_pos _) (fun _ => rfl) closes
  | @letter c cs _ noQuote noEscape _ ih =>
    have same : Nesting.next ⟨depth + 1, true, false⟩ c = ⟨depth + 1, true, false⟩ := by
      simp [Nesting.next, noQuote, noEscape]
    exact .more (Nat.succ_pos _) (fun _ => rfl) (same.symm ▸ ih closes)
  | @escape c cs _ letter _ ih =>
    apply Nesting.Closes.more (Nat.succ_pos _) (fun _ => rfl)
    apply Nesting.Closes.more (Nat.succ_pos _)
    · intro blank
      rw [letter] at blank
      cases blank
    · exact ih closes

/-- What is skipped leaves the nesting as it is, with all brackets open that were. -/
theorem Skips.closes {cs rest : List Char} (skips : Skips cs rest) {depth : Nat}
    (closes : Nesting.Closes ⟨depth + 1, false, false⟩ rest) :
    Nesting.Closes ⟨depth + 1, false, false⟩ cs := by
  induction skips generalizing depth with
  | refl => exact closes
  | plain unmarked _ ih =>
    have same := Nesting.next_plain unmarked (depth + 1)
    exact .more (Nat.succ_pos _) (fun _ => rfl) (same.symm ▸ ih closes)
  | string quoted _ ih => exact .more (Nat.succ_pos _) (fun _ => rfl) (quoted.closes (ih closes))
  | @nested o c _ after _ opens shuts _ _ inner outer =>
    have down : Nesting.Closes ⟨depth + 2, false, false⟩ (c :: after) := by
      apply Nesting.Closes.more (Nat.succ_pos _) (fun _ => rfl)
      rcases shuts with rfl | rfl <;> exact outer closes
    apply Nesting.Closes.more (Nat.succ_pos _) (fun _ => rfl)
    rcases opens with rfl | rfl <;> exact inner down

end Json

namespace Words

open Text (isBlank)

namespace Nesting

/-- Up to the end of a word that is not the last, a bracket is open. -/
theorem Closes.after_word {n : Nesting} {word rest : List Char} (closes : n.Closes (word ++ rest))
    (more : rest ≠ []) : (n.scan word).Closes rest := by
  induction word generalizing n with
  | nil => exact closes
  | cons c word ih =>
    cases tail : word ++ rest with
    | nil => exact absurd (List.append_eq_nil_iff.mp tail).2 more
    | cons d others =>
      rw [List.cons_append, tail] at closes
      cases closes with
      | more _ _ later => exact ih (tail ▸ later)

theorem Closes.balanced {n : Nesting} {word : List Char} (closes : n.Closes word) :
    (n.scan word).isBalanced = true := by
  induction closes with
  | last _ balanced => exact balanced
  | more _ _ _ ih => exact ih

theorem Closes.unbalanced {n : Nesting} {cs : List Char} (closes : n.Closes cs) :
    n.isBalanced = false := by
  have inside := closes.inside
  have deep : (n.depth == 0) = false := by
    rw [beq_eq_false_iff_ne]
    omega
  simp [isBalanced, deep]

/-- The blanks before a word change nothing. -/
theorem Closes.after_gap {n : Nesting} {gap rest : List Char} (blanks : ∀ c ∈ gap, isBlank c = true)
    (closes : n.Closes (gap ++ rest)) (more : rest ≠ []) : n.Closes rest := by
  induction gap with
  | nil => exact closes
  | cons c gap ih =>
    apply ih fun d member => blanks d (List.mem_cons_of_mem _ member)
    cases tail : gap ++ rest with
    | nil => exact absurd (List.append_eq_nil_iff.mp tail).2 more
    | cons d others =>
      rw [List.cons_append, tail] at closes
      have blank := blanks c (by simp)
      cases closes with
      | more _ calm later => exact next_blank blank (calm blank) ▸ later

end Nesting

/-- Pieces that spell a text up to the bracket that closes the last one close the operand. -/
theorem fills_of_closes {n : Nesting} {ps : List Piece} (sound : ∀ p ∈ ps, p.Sound)
    (closes : n.Closes (spell ps)) : Fills (some (.balance n)) ps := by
  induction ps generalizing n with
  | nil => cases closes
  | cons p ps ih =>
    have first := sound p (by simp)
    rw [spell_cons] at closes
    have worded := closes.after_gap first.gap (by simp [first.filled])
    apply Fills.more
    cases ps with
    | nil =>
      rw [spell_nil, List.append_nil] at worded
      simpa [Awaiting.after, worded.balanced] using fills_nil
    | cons q ps =>
      have filled : spell (q :: ps) ≠ [] := by
        simp [(sound q (by simp)).filled]
      have later := worded.after_word filled
      have rest := ih (fun r member => sound r (List.mem_cons_of_mem _ member)) later
      simpa [Awaiting.after, later.unbalanced] using rest

/-- A word with an open brace takes the pieces up to the one that closes it. -/
theorem group_braced {p : Piece} {w : List Char} (word : p.word = '\x7b' :: w) {ps : List Piece}
    (sound : ∀ q ∈ ps, q.Sound) (closes : Nesting.Closes ⟨1, false, false⟩ (w ++ spell ps))
    (qs : List Piece) : group none (p :: (ps ++ qs)) = (p.word ++ spell ps) :: group none qs := by
  have opens : Awaiting.opened p.word =
      if (Nesting.scan ⟨1, false, false⟩ w).isBalanced then none
      else some (.balance (Nesting.scan ⟨1, false, false⟩ w)) := by
    rw [word]
    rfl
  have fills : Fills (Awaiting.opened p.word) ps := by
    cases ps with
    | nil =>
      rw [spell_nil, List.append_nil] at closes
      rw [opens, closes.balanced]
      exact fills_nil
    | cons q ps =>
      have filled : spell (q :: ps) ≠ [] := by simp [(sound q (by simp)).filled]
      have later := closes.after_word filled
      rw [opens, later.unbalanced]
      exact fills_of_closes sound later
  rw [group_cons, fills]

/-- A text that begins and ends with a letter is all that its pieces spell. -/
theorem pieces_lettered {c d : Char} {cs : List Char} (first : isBlank c = false)
    (last : (c :: cs).getLast? = some d) (ends : isBlank d = false) :
    ∃ w ps, pieces (c :: cs) = ⟨[], c :: w⟩ :: ps ∧ cs = w ++ spell ps := by
  have whole := spell_whole last ends
  rcases pieces_cases c cs with ⟨blank, _⟩ | ⟨_, _, found⟩ | ⟨_, word, ps, _, found⟩
  · rw [first] at blank
    cases blank
  · refine ⟨[], _, found, ?_⟩
    rw [found] at whole
    simpa using whole.symm
  · refine ⟨word, ps, found, ?_⟩
    rw [found] at whole
    simpa using whole.symm

/-- An object in JSON is one operand, whatever it holds, and leaves the operands after it as they
are. -/
theorem split_object {command t : List Char} {v : Json} (filled : command ≠ [])
    (letters : ∀ c ∈ command, isBlank c = false) (parsed : Json.parse t = .ok v)
    (braced : Operand.isBraced t = true) (rest : List Char) :
    ∃ operands, split (command ++ ' ' :: rest) = command :: operands ∧
      split (command ++ ' ' :: (t ++ ' ' :: rest)) = command :: t :: operands := by
  simp only [Operand.isBraced, Bool.and_eq_true, decide_eq_true_eq] at braced
  obtain ⟨cs, rfl⟩ := List.head?_eq_some_iff.mp braced.1
  have closes : Nesting.Closes ⟨0 + 1, false, false⟩ cs :=
    (Json.parse_skips parsed braced.2).closes (.last (Nat.succ_pos 0) rfl)
  obtain ⟨w, ps, found, whole⟩ := pieces_lettered (by decide) braced.2 (by decide)
  have spaced : Spaced (⟨[], '\x7b' :: w⟩ :: ps) := found ▸ spaced_pieces _
  have begins (tail : List Char) : ∀ c ∈ (' ' :: tail).head?, isBlank c = true := by
    rintro c ⟨⟩
    decide
  have after : pieces ('\x7b' :: cs ++ ' ' :: rest) =
      ⟨[], '\x7b' :: w⟩ :: (ps ++ pieces (' ' :: rest)) := by
    have spelled := pieces_spell_append spaced (begins rest)
    rw [whole]
    simpa using spelled
  refine ⟨group none (pieces (' ' :: rest)), ?_, ?_⟩
  · unfold split
    rw [pieces_word filled letters (begins rest)]
  · unfold split
    rw [pieces_word filled letters (begins _), pieces_blank (by decide), after]
    simp only [List.modifyHead_cons]
    rw [group_braced rfl spaced.tail.sound (whole ▸ closes), whole]
    rfl

/-- Marks inside of strings, escapes, nested objects and blanks, also one that JSON does not know. -/
theorem split_object_strings :
    let t := "\x7b \"a\\\"\x7d\" : [1, \x7b\"b\":\" ] \x7d \\\\\"\x7d ],\t\"\u00a0\": \"\"\x7d".toList
    (Json.parse t).toOption.isSome = true ∧
      split ("mov".toList ++ ' ' :: (t ++ ' ' :: "rg0 \"x y\"".toList)) =
        ["mov".toList, t, "rg0".toList, "\"x y\"".toList] := by
  intro t
  have accepted : (Json.parse t).toOption.isSome = true := by decide +kernel
  refine ⟨accepted, ?_⟩
  cases parsed : Json.parse t with
  | error failure =>
    rw [parsed] at accepted
    cases accepted
  | ok v =>
    have shorter : split ("mov".toList ++ ' ' :: "rg0 \"x y\"".toList) =
        ["mov".toList, "rg0".toList, "\"x y\"".toList] := by decide +kernel
    have letters : ∀ c ∈ "mov".toList, isBlank c = false := by simp [isBlank]
    obtain ⟨operands, plain, whole⟩ :=
      split_object (by decide) letters parsed (by decide) "rg0 \"x y\"".toList
    rw [shorter] at plain
    rw [whole, ← (List.cons.inj plain).2]

end Words

end RegisterMachine
