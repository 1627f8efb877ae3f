import RegisterMachine.Proofs.Rows

/-!
What dumps tell. A document's `outline` is its tree with the numbers as they are written. The text of a
document tells its outline and where it ends (`render_told`): its first character tells its form, quoted
strings and keys end where they seem to, and after each entry the next character tells whether there is
another. Nothing else enters the text (`render_congr`), so values are shown alike just if they have one
outline (`text_value_iff`).
-/

namespace RegisterMachine

/-- A document with its numbers as they are written. -/
inductive Outline where
  | null
  | boolean (b : Bool)
  | number (text : String)
  | string (s : String)
  | array (items : List Outline)
  | object (fields : List (String × Outline))

mutual

def Json.outline : Json → Outline
  | .null => .null
  | .boolean b => .boolean b
  | .number n => .number (Number.text n.toDouble)
  | .string s => .string s
  | .array items => .array (outlineItems items)
  | .object fields => .object (outlineFields fields)

def Json.outlineItems : List Json → List Outline
  | [] => []
  | item :: rest => item.outline :: outlineItems rest

def Json.outlineFields : List (String × Json) → List (String × Outline)
  | [] => []
  | (name, item) :: rest => (name, item.outline) :: outlineFields rest

end

theorem Json.outlineItems_eq (items : List Json) : outlineItems items = items.map outline := by
  induction items with
  | nil => rfl
  | cons item rest ih => rw [outlineItems, ih, List.map_cons]

theorem Json.outlineFields_eq (fields : List (String × Json)) :
    outlineFields fields = fields.map fun field => (field.1, field.2.outline) := by
  induction fields with
  | nil => rfl
  | cons field rest ih =>
    obtain ⟨name, item⟩ := field
    rw [outlineFields, ih, List.map_cons]

namespace Dump

/-- Two texts that go on as far as a test holds are told apart from what follows them. -/
theorem span_cancel {p : Char → Bool} {xs ys as bs : List Char} (left : ∀ c ∈ xs, p c = true)
    (right : ∀ c ∈ ys, p c = true) (leftEnds : ∀ c ∈ as.head?, p c = false)
    (rightEnds : ∀ c ∈ bs.head?, p c = false) (same : xs ++ as = ys ++ bs) : xs = ys ∧ as = bs := by
  obtain ⟨leftTaken, leftLeft⟩ := Number.span_append left leftEnds
  obtain ⟨rightTaken, rightLeft⟩ := Number.span_append right rightEnds
  rw [same] at leftTaken leftLeft
  exact ⟨leftTaken.symm.trans rightTaken, leftLeft.symm.trans rightLeft⟩

theorem escaped_cancel {c d : Char} {as bs : List Char} (same : escaped c ++ as = escaped d ++ bs) :
    c = d ∧ as = bs := by
  unfold escaped at same
  split at same
  · split at same
    · simpa using same
    · rename_i other
      exact absurd (List.head_eq_of_cons_eq same).symm (not_or.mp other).1
  · rename_i plain
    split at same
    · exact absurd (List.head_eq_of_cons_eq same) (not_or.mp plain).1
    · simpa using same

/-- No quoted character is taken for the closing quote. -/
theorem escaped_open (c : Char) (as bs : List Char) : escaped c ++ as ≠ '\x27' :: bs := by
  unfold escaped
  split
  · simp
  · rename_i plain
    intro same
    exact (not_or.mp plain).2 (List.head_eq_of_cons_eq same)

theorem quoted_cancel {cs ds as bs : List Char}
    (same : cs.flatMap escaped ++ '\x27' :: as = ds.flatMap escaped ++ '\x27' :: bs) :
    cs = ds ∧ as = bs := by
  induction cs generalizing ds with
  | nil =>
    cases ds with
    | nil => exact ⟨rfl, List.tail_eq_of_cons_eq same⟩
    | cons d ds =>
      rw [List.flatMap_cons, List.append_assoc] at same
      exact absurd same.symm (escaped_open _ _ _)
  | cons c cs ih =>
    cases ds with
    | nil =>
      rw [List.flatMap_cons, List.append_assoc] at same
      exact absurd same (escaped_open _ _ _)
    | cons d ds =>
      rw [List.flatMap_cons, List.flatMap_cons, List.append_assoc, List.append_assoc] at same
      obtain ⟨rfl, rest⟩ := escaped_cancel same
      obtain ⟨rfl, follow⟩ := ih rest
      exact ⟨rfl, follow⟩

theorem quote_cancel {cs ds as bs : List Char} (same : quote cs ++ as = quote ds ++ bs) :
    cs = ds ∧ as = bs := by
  apply quoted_cancel
  simpa [quote] using same

theorem plainKey_characters {cs : List Char} (plain : isPlainKey cs = true) :
    ∀ c ∈ cs, isKeyCharacter c = true := by
  cases cs with
  | nil => simp
  | cons c rest =>
    rw [isPlainKey, Bool.and_eq_true, List.all_eq_true] at plain
    exact plain.2

/-- A plain key is not taken for one in quotes. -/
theorem plainKey_ne_quote {cs ds as bs : List Char} (plain : isPlainKey cs = true) :
    cs ++ as ≠ quote ds ++ bs := by
  intro same
  cases cs with
  | nil => cases plain
  | cons c rest =>
    have character := plainKey_characters plain c List.mem_cons_self
    obtain rfl : c = '\x27' := List.head_eq_of_cons_eq same
    cases character

theorem key_cancel {cs ds as bs : List Char} (same : key cs ++ ':' :: as = key ds ++ ':' :: bs) :
    cs = ds ∧ as = bs := by
  unfold key at same
  split at same
  · rename_i plain
    split at same
    · rename_i other
      have colon : ∀ rest : List Char, ∀ c ∈ (':' :: rest).head?, isKeyCharacter c = false := by
        intro rest c first
        cases first
        rfl
      obtain ⟨rfl, follow⟩ := span_cancel (plainKey_characters plain) (plainKey_characters other)
        (colon as) (colon bs) same
      exact ⟨rfl, List.tail_eq_of_cons_eq follow⟩
    · exact absurd same (plainKey_ne_quote plain)
  · split at same
    · rename_i other
      exact absurd same.symm (plainKey_ne_quote other)
    · obtain ⟨rfl, follow⟩ := quote_cancel same
      exact ⟨rfl, List.tail_eq_of_cons_eq follow⟩

/-- The forms of documents. -/
inductive Form where
  | null
  | boolean
  | number
  | string
  | array
  | object

def form : Json → Form
  | .null => .null
  | .boolean _ => .boolean
  | .number _ => .number
  | .string _ => .string
  | .array _ => .array
  | .object _ => .object

/-- The form of a document that begins with a character. -/
def Form.opening (c : Char) : Form :=
  if c = 'n' then null
  else if c = 't' ∨ c = 'f' then boolean
  else if c = '\x27' then string
  else if c = '[' then array
  else if c = '\x7b' then object
  else number

theorem opening_number {c : Char} (numeral : Number.isNumeral c = true) (upper : c.isLower = false) :
    Form.opening c = .number := by
  have word : c ≠ 'n' ∧ c ≠ 't' ∧ c ≠ 'f' := by
    refine ⟨?_, ?_, ?_⟩ <;> (rintro rfl; cases upper)
  have mark : c ≠ '\x27' ∧ c ≠ '[' ∧ c ≠ '\x7b' := by
    refine ⟨?_, ?_, ?_⟩ <;> (rintro rfl; cases numeral)
  simp [Form.opening, word, mark]

theorem enclose_opens (opening closing : Char) (indent width : Nat) (entries : List (List Char)) :
    ∃ rest, enclose opening closing indent width entries = opening :: rest := by
  unfold enclose
  split
  · exact ⟨_, rfl⟩
  · split
    · exact ⟨_, rfl⟩
    · exact ⟨_, rfl⟩

theorem render_opens (indent : Nat) (node : Json) :
    ∃ c rest, render false indent node = c :: rest ∧ Form.opening c = form node := by
  cases node with
  | null => exact ⟨'n', _, rfl, rfl⟩
  | boolean b => cases b <;> exact ⟨_, _, rfl, rfl⟩
  | number n =>
    obtain ⟨c, rest, text, upper⟩ := Number.text_opens n.toDouble
    have numeral := Number.text_numerals n.toDouble c (text ▸ List.mem_cons_self)
    exact ⟨c, rest, text, opening_number numeral upper⟩
  | string s => exact ⟨'\x27', _, rfl, rfl⟩
  | array items =>
    rw [render]
    obtain ⟨rest, text⟩ := enclose_opens '[' ']' indent (flatWidth (.array items))
      (renderItems false (indent + 2) items)
    exact ⟨_, rest, text, rfl⟩
  | object fields =>
    rw [render]
    obtain ⟨rest, text⟩ := enclose_opens '\x7b' '\x7d' indent (flatWidth (.object fields))
      (renderFields false (indent + 2) fields)
    exact ⟨_, rest, text, rfl⟩

theorem form_eq {indent : Nat} {v w : Json} {as bs : List Char}
    (same : render false indent v ++ as = render false indent w ++ bs) : form v = form w := by
  obtain ⟨c, _, left, first⟩ := render_opens indent v
  obtain ⟨d, _, right, second⟩ := render_opens indent w
  rw [left, right] at same
  rw [← first, ← second, List.head_eq_of_cons_eq same]

/-- Text that can follow a document: none, or one that begins with a comma, a space or a line break. -/
def Follows (cs : List Char) : Prop := ∀ c ∈ cs.head?, c = ',' ∨ c = ' ' ∨ c = '\n'

theorem Follows.not_numeral {cs : List Char} (follows : Follows cs) :
    ∀ c ∈ cs.head?, Number.isNumeral c = false := by
  intro c first
  rcases follows c first with rfl | rfl | rfl <;> rfl

/-- Whatever follows it, the text of `x` tells what `mark` sees in it, and where it ends. -/
def Told {α β : Type} (text : α → List Char) (mark : α → β) (x : α) : Prop :=
  ∀ y as bs, Follows as → Follows bs → text x ++ as = text y ++ bs → mark x = mark y ∧ as = bs

/-- What stands before each entry between brackets, and what stands before the closing one. -/
structure Margins where
  before : List Char
  after : List Char

namespace Margins

def of (indent width : Nat) : Margins :=
  if indent + width ≤ maxWidth then ⟨[' '], [' ']⟩
  else ⟨'\n' :: blanks (indent + 2), '\n' :: blanks indent⟩

/-- What follows the first entry. -/
def close (margins : Margins) (closing : Char) (entries : List (List Char)) : List Char :=
  (entries.flatMap fun next => ',' :: (margins.before ++ next)) ++ (margins.after ++ [closing])

theorem close_nil (margins : Margins) (closing : Char) (rest : List Char) :
    margins.close closing [] ++ rest = margins.after ++ closing :: rest := by
  simp [close]

theorem close_cons (margins : Margins) (closing : Char) (entry : List Char)
    (entries : List (List Char)) (rest : List Char) :
    margins.close closing (entry :: entries) ++ rest =
      ',' :: (margins.before ++ (entry ++ (margins.close closing entries ++ rest))) := by
  simp [close]

theorem of_begins (indent width : Nat) :
    ∃ c, (c = ' ' ∨ c = '\n') ∧ (∃ rest, (of indent width).before = c :: rest) ∧
      ∃ rest, (of indent width).after = c :: rest := by
  unfold of
  split
  · exact ⟨' ', .inl rfl, ⟨_, rfl⟩, _, rfl⟩
  · exact ⟨'\n', .inr rfl, ⟨_, rfl⟩, _, rfl⟩

/-- The first character in the brackets tells whether the entries share a line. -/
theorem of_eq {indent width other : Nat} {as bs : List Char}
    (same : (of indent width).before ++ as = (of indent other).before ++ bs) :
    of indent width = of indent other := by
  unfold of at same ⊢
  split at same
  · split at same
    · rename_i fits others
      rw [if_pos fits, if_pos others]
    · cases List.head_eq_of_cons_eq same
  · split at same
    · cases List.head_eq_of_cons_eq same
    · rename_i wide others
      rw [if_neg wide, if_neg others]

theorem close_follows (indent width : Nat) (closing : Char) (entries : List (List Char))
    (rest : List Char) : Follows ((of indent width).close closing entries ++ rest) := by
  intro c first
  cases entries with
  | nil =>
    obtain ⟨d, blank, _, _, text⟩ := of_begins indent width
    rw [close_nil, text] at first
    cases first
    exact .inr blank
  | cons entry entries =>
    rw [close_cons] at first
    cases first
    exact .inl rfl

/-- A comma is not taken for the end of the entries. -/
theorem after_ne_comma (indent width : Nat) (as bs : List Char) :
    (of indent width).after ++ as ≠ ',' :: bs := by
  intro same
  obtain ⟨d, blank, _, _, text⟩ := of_begins indent width
  rw [text] at same
  obtain rfl : d = ',' := List.head_eq_of_cons_eq same
  rcases blank with blank | blank <;> cases blank

theorem close_cancel {α β : Type} {text : α → List Char} {mark : α → β} {indent width : Nat}
    {closing : Char} {xs ys : List α} {as bs : List Char} (told : ∀ x ∈ xs, Told text mark x)
    (same : (of indent width).close closing (xs.map text) ++ as =
      (of indent width).close closing (ys.map text) ++ bs) : xs.map mark = ys.map mark ∧ as = bs := by
  -- The next character is a comma exactly if there is another entry, on either side.
  induction xs generalizing ys with
  | nil =>
    cases ys with
    | nil => exact ⟨rfl, List.append_cancel_left same⟩
    | cons y ys =>
      rw [List.map_nil, List.map_cons, close_nil, close_cons] at same
      exact absurd same (after_ne_comma _ _ _ _)
  | cons x xs ih =>
    obtain ⟨first, later⟩ := List.forall_mem_cons.mp told
    cases ys with
    | nil =>
      rw [List.map_nil, List.map_cons, close_nil, close_cons] at same
      exact absurd same.symm (after_ne_comma _ _ _ _)
    | cons y ys =>
      rw [List.map_cons, List.map_cons, close_cons, close_cons] at same
      have entry := List.append_cancel_left (List.tail_eq_of_cons_eq same)
      obtain ⟨marks, rest⟩ :=
        first y _ _ (close_follows _ _ _ _ _) (close_follows _ _ _ _ _) entry
      obtain ⟨others, follow⟩ := ih later rest
      exact ⟨by rw [List.map_cons, List.map_cons, marks, others], follow⟩

end Margins

theorem enclose_cons (opening closing : Char) (indent width : Nat) (entry : List Char)
    (entries : List (List Char)) :
    enclose opening closing indent width (entry :: entries) =
      opening :: ((Margins.of indent width).before ++
        (entry ++ (Margins.of indent width).close closing entries)) := by
  unfold Margins.of
  split
  · rename_i fits
    rw [enclose_row fits]
    simp [row, Margins.close]
  · rename_i wide
    rw [enclose_column (by omega) (List.cons_ne_nil _ _)]
    simp [column, Margins.close, intercalate_eq_flatMap, List.flatMap_map]

/-- Brackets with nothing between them are not taken for others. -/
theorem enclose_ne_nil {opening closing : Char} (filled : closing ≠ ' ' ∧ closing ≠ '\n')
    {indent width other : Nat} {entry : List Char} {entries : List (List Char)} {as bs : List Char} :
    enclose opening closing indent width [] ++ as ≠
      enclose opening closing indent other (entry :: entries) ++ bs := by
  intro same
  obtain ⟨c, blank, ⟨_, text⟩, _⟩ := Margins.of_begins indent other
  rw [enclose_cons, text] at same
  obtain rfl : closing = c := List.head_eq_of_cons_eq (List.tail_eq_of_cons_eq same)
  rcases blank with blank | blank
  · exact filled.1 blank
  · exact filled.2 blank

/-- If the text of each entry tells what is in it, so does their text between brackets, whichever way
it is laid out. -/
theorem enclose_cancel {α β : Type} {text : α → List Char} {mark : α → β} {opening closing : Char}
    (filled : closing ≠ ' ' ∧ closing ≠ '\n') {indent width other : Nat} {xs ys : List α}
    {as bs : List Char} (told : ∀ x ∈ xs, Told text mark x)
    (same : enclose opening closing indent width (xs.map text) ++ as =
      enclose opening closing indent other (ys.map text) ++ bs) :
    xs.map mark = ys.map mark ∧ as = bs := by
  cases xs with
  | nil =>
    cases ys with
    | nil => exact ⟨rfl, List.append_cancel_left same⟩
    | cons y ys => exact absurd same (enclose_ne_nil filled)
  | cons x xs =>
    cases ys with
    | nil => exact absurd same.symm (enclose_ne_nil filled)
    | cons y ys =>
      obtain ⟨first, later⟩ := List.forall_mem_cons.mp told
      rw [List.map_cons, List.map_cons, enclose_cons, enclose_cons] at same
      simp only [List.cons_append, List.append_assoc] at same
      have inside := List.tail_eq_of_cons_eq same
      have margins := Margins.of_eq inside
      rw [margins] at inside
      have entry := List.append_cancel_left inside
      obtain ⟨marks, rest⟩ :=
        first y _ _ (Margins.close_follows _ _ _ _ _) (Margins.close_follows _ _ _ _ _) entry
      obtain ⟨others, follow⟩ := Margins.close_cancel later rest
      exact ⟨by rw [List.map_cons, List.map_cons, marks, others], follow⟩

theorem fieldText_told {lay : Json → List Char} {field : String × Json}
    (told : Told lay Json.outline field.2) :
    Told (fieldText lay) (fun field => (field.1, field.2.outline)) field := by
  intro other as bs left right same
  simp only [fieldText, List.append_assoc, List.cons_append, List.nil_append] at same
  obtain ⟨names, rest⟩ := key_cancel same
  obtain ⟨outlines, follow⟩ := told other.2 as bs left right (List.tail_eq_of_cons_eq rest)
  exact ⟨Prod.ext (String.toList_inj.mp names) outlines, follow⟩

/-- The text of a document tells its outline and where it ends. -/
theorem render_told (indent : Nat) (node : Json) : Told (render false indent) Json.outline node := by
  induction node using parts_induct generalizing indent with
  | step node ih =>
    intro other as bs left right same
    -- The two may differ in width, so their layouts are compared only once their forms are the same.
    have forms := form_eq same
    cases node with
    | null =>
      cases other <;> cases forms
      exact ⟨rfl, List.append_cancel_left same⟩
    | boolean b =>
      cases other <;> cases forms
      rename_i d
      cases b <;> cases d
      · exact ⟨rfl, List.append_cancel_left same⟩
      · cases List.head_eq_of_cons_eq same
      · cases List.head_eq_of_cons_eq same
      · exact ⟨rfl, List.append_cancel_left same⟩
    | number n =>
      cases other <;> cases forms
      obtain ⟨texts, follow⟩ := span_cancel (Number.text_numerals _) (Number.text_numerals _)
        left.not_numeral right.not_numeral same
      exact ⟨congrArg Outline.number (String.toList_inj.mp texts), follow⟩
    | string s =>
      cases other <;> cases forms
      obtain ⟨texts, follow⟩ := quote_cancel same
      exact ⟨congrArg Outline.string (String.toList_inj.mp texts), follow⟩
    | array items =>
      cases other <;> cases forms
      have told : ∀ item ∈ items, Told (render false (indent + 2)) Json.outline item :=
        fun item member => List.forall_mem_map.mp ih item member (indent + 2)
      rw [render, render, renderItems_eq_map, renderItems_eq_map] at same
      obtain ⟨outlines, follow⟩ := enclose_cancel (by decide) told same
      rw [Json.outline, Json.outline, Json.outlineItems_eq, Json.outlineItems_eq, outlines]
      exact ⟨rfl, follow⟩
    | object fields =>
      cases other <;> cases forms
      have told : ∀ field ∈ fields, Told (fieldText (render false (indent + 2)))
          (fun field => (field.1, field.2.outline)) field :=
        fun field member => fieldText_told (List.forall_mem_map.mp ih field member (indent + 2))
      rw [render, render, renderFields_eq_map, renderFields_eq_map] at same
      obtain ⟨outlines, follow⟩ := enclose_cancel (by decide) told same
      rw [Json.outline, Json.outline, Json.outlineFields_eq, Json.outlineFields_eq, outlines]
      exact ⟨rfl, follow⟩

theorem map_congr_of_map {α β γ : Type} {f : α → β} {g : α → γ} {xs ys : List α}
    (follows : ∀ x ∈ xs, ∀ y, f x = f y → g x = g y) (same : xs.map f = ys.map f) :
    xs.map g = ys.map g := by
  induction xs generalizing ys with
  | nil =>
    cases ys with
    | nil => rfl
    | cons y ys => cases same
  | cons x xs ih =>
    cases ys with
    | nil => cases same
    | cons y ys =>
      obtain ⟨first, later⟩ := List.forall_mem_cons.mp follows
      obtain ⟨heads, tails⟩ := List.cons.inj same
      rw [List.map_cons, List.map_cons, first y heads, ih later tails]

/-- What is made of the entries is told by their outlines if what is made of each part is. -/
theorem entries_congr (lay : Json → List Char) {v w : Json}
    (parts_congr : ∀ part ∈ parts v, ∀ other : Json, part.2.outline = other.outline →
      lay part.2 = lay other) (same : v.outline = w.outline) : entries lay v = entries lay w := by
  cases v with
  | null | boolean | number | string =>
    cases w with
    | null | boolean | number | string => rfl
    | array | object => cases same
  | array items =>
    cases w with
    | array others =>
      rw [Json.outline, Json.outline, Json.outlineItems_eq, Json.outlineItems_eq] at same
      exact map_congr_of_map (List.forall_mem_map.mp parts_congr) (Outline.array.inj same)
    | _ => cases same
  | object fields =>
    cases w with
    | object others =>
      rw [Json.outline, Json.outline, Json.outlineFields_eq, Json.outlineFields_eq] at same
      refine map_congr_of_map ?_ (Outline.object.inj same)
      intro field member other matching
      obtain ⟨names, outlines⟩ := Prod.mk.inj matching
      rw [fieldText, fieldText, names, List.forall_mem_map.mp parts_congr field member _ outlines]
    | _ => cases same

theorem oneLine_congr {v w : Json} (same : v.outline = w.outline) : oneLine v = oneLine w := by
  induction v using parts_induct generalizing w with
  | step v ih =>
    have inside := entries_congr oneLine (fun part member other => ih part member) same
    cases v with
    | null | boolean b =>
      cases w <;> cases same
      rfl
    | number n =>
      cases w with
      | number m => exact congrArg String.toList (Outline.number.inj same)
      | _ => cases same
    | string s =>
      cases w <;> cases same
      rfl
    | array items =>
      cases w with
      | array others => rw [oneLine_array, oneLine_array, inside]
      | _ => cases same
    | object fields =>
      cases w with
      | object others => rw [oneLine_object, oneLine_object, inside]
      | _ => cases same

/-- Nothing but the outline of a document enters its text. -/
theorem render_congr {v w : Json} (same : v.outline = w.outline) (colors : Bool) (indent : Nat) :
    render colors indent v = render colors indent w := by
  induction v using parts_induct generalizing w indent with
  | step v ih =>
    have inside := entries_congr (render colors (indent + 2))
      (fun part member other outlines => ih part member outlines (indent + 2)) same
    have widths : flatWidth v = flatWidth w := by
      rw [← length_oneLine, ← length_oneLine, oneLine_congr same]
    cases v with
    | null | boolean b =>
      cases w <;> cases same
      rfl
    | number n =>
      cases w with
      | number m => rw [render, render, Outline.number.inj same]
      | _ => cases same
    | string s =>
      cases w <;> cases same
      rfl
    | array items =>
      cases w with
      | array others =>
        rw [render, render, widths, renderItems_eq_map, renderItems_eq_map]
        exact congrArg _ inside
      | _ => cases same
    | object fields =>
      cases w with
      | object others =>
        rw [render, render, widths, renderFields_eq_map, renderFields_eq_map]
        exact congrArg _ inside
      | _ => cases same

/-- Values are shown alike just if they are one tree with the same strings, keys and booleans and with
numbers that are written alike. -/
theorem text_value_iff (v w : Value) :
    (value v).text false = (value w).text false ↔ v.toJson.outline = w.toJson.outline := by
  have none : Follows [] := by
    intro c first
    cases first
  constructor
  · intro same
    have texts : render false 0 v.toJson ++ [] = render false 0 w.toJson ++ [] := by
      rw [List.append_nil, List.append_nil]
      exact String.ofList_injective same
    exact (render_told 0 v.toJson w.toJson [] [] none none texts).1
  · intro same
    exact congrArg String.ofList (render_congr same false 0)

end Dump

end RegisterMachine
