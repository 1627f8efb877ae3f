import RegisterMachine.Dump

/-!
The widths of dumps. A document is as wide on one line as was reckoned before it is laid out
(`length_oneLine`), and one that fits is laid out on one line with all that is in it
(`render_fits`): what is inside is two columns further in, but its brackets leave it four columns less.
-/

namespace RegisterMachine.Dump

/-- Entries between two brackets on one line. -/
def row (opening closing : Char) : List (List Char) → List Char
  | [] => [opening, closing]
  | entry :: rest =>
    [opening, ' '] ++ entry ++ (rest.flatMap fun next => [',', ' '] ++ next) ++ [' ', closing]

/-- Entries between two brackets, each on a line of its own. -/
def column (opening closing : Char) (indent : Nat) (entries : List (List Char)) : List Char :=
  [opening] ++ [','].intercalate (entries.map fun entry => '\n' :: blanks (indent + 2) ++ entry) ++
    '\n' :: blanks indent ++ [closing]

/-- A field of an object, given how its item is laid out. -/
def fieldText (lay : Json → List Char) (field : String × Json) : List Char :=
  key field.1.toList ++ [':', ' '] ++ lay field.2

mutual

/-- A document on one line, and all that is in it too. -/
def oneLine : Json → List Char
  | .null => "null".toList
  | .boolean b => (if b then "true" else "false").toList
  | .number n => (Number.text n.toDouble).toList
  | .string s => quote s.toList
  | .array items => row '[' ']' (oneLineItems items)
  | .object fields => row '\x7b' '\x7d' (oneLineFields fields)

def oneLineItems : List Json → List (List Char)
  | [] => []
  | item :: rest => oneLine item :: oneLineItems rest

def oneLineFields : List (String × Json) → List (List Char)
  | [] => []
  | (name, item) :: rest => (key name.toList ++ [':', ' '] ++ oneLine item) :: oneLineFields rest

end

mutual

/-- The width that is reckoned is the width on one line. -/
theorem length_oneLine : ∀ node : Json, (oneLine node).length = flatWidth node
  | .null => rfl
  | .boolean b => by cases b <;> rfl
  | .number n => rfl
  | .string s => rfl
  | .array [] => rfl
  | .array (item :: rest) => by
    have first := length_oneLine item
    have others := length_oneLineItems rest
    simp only [oneLine, oneLineItems, row, flatWidth, List.length_append, List.length_cons,
      List.length_nil, first, others]
    omega
  | .object [] => rfl
  | .object ((name, item) :: rest) => by
    have first := length_oneLine item
    have others := length_oneLineFields rest
    simp only [oneLine, oneLineFields, row, flatWidth, List.length_append, List.length_cons,
      List.length_nil, first, others]
    omega

theorem length_oneLineItems : ∀ items : List Json,
    ((oneLineItems items).flatMap fun next => [',', ' '] ++ next).length = itemsWidth items
  | [] => rfl
  | item :: rest => by
    have first := length_oneLine item
    have others := length_oneLineItems rest
    simp only [oneLineItems, itemsWidth, List.flatMap_cons, List.length_append, List.length_cons,
      List.length_nil, first, others]

theorem length_oneLineFields : ∀ fields : List (String × Json),
    ((oneLineFields fields).flatMap fun next => [',', ' '] ++ next).length = fieldsWidth fields
  | [] => rfl
  | (name, item) :: rest => by
    have first := length_oneLine item
    have others := length_oneLineFields rest
    simp only [oneLineFields, fieldsWidth, List.flatMap_cons, List.length_append, List.length_cons,
      List.length_nil, first, others]

end

theorem intercalate_eq_flatMap (separator entry : List Char) (rest : List (List Char)) :
    separator.intercalate (entry :: rest) = entry ++ rest.flatMap fun next => separator ++ next := by
  induction rest generalizing entry with
  | nil => simp
  | cons next rest ih =>
    rw [List.intercalate_cons_cons, ih, List.flatMap_cons, List.append_assoc, List.append_assoc]

theorem enclose_row {opening closing : Char} {indent width : Nat} (fits : indent + width ≤ maxWidth)
    (entries : List (List Char)) :
    enclose opening closing indent width entries = row opening closing entries := by
  cases entries with
  | nil => rfl
  | cons entry rest =>
    rw [enclose, if_neg (by simp), if_pos fits, intercalate_eq_flatMap]
    simp [row]

theorem enclose_column {opening closing : Char} {indent width : Nat}
    (wide : maxWidth < indent + width) {entries : List (List Char)} (filled : entries ≠ []) :
    enclose opening closing indent width entries = column opening closing indent entries := by
  obtain ⟨entry, rest, rfl⟩ := List.exists_cons_of_ne_nil filled
  rw [enclose, if_neg (by simp), if_neg (by omega), column, List.map_cons, List.map_cons,
    intercalate_eq_flatMap, intercalate_eq_flatMap]
  simp [List.flatMap_map]

theorem itemsWidth_mem {item : Json} {items : List Json} (member : item ∈ items) :
    flatWidth item + 2 ≤ itemsWidth items := by
  induction items with
  | nil => cases member
  | cons first rest ih =>
    rw [itemsWidth]
    rcases List.mem_cons.mp member with rfl | later
    · omega
    · have wide := ih later
      omega

theorem fieldsWidth_mem {field : String × Json} {fields : List (String × Json)}
    (member : field ∈ fields) : flatWidth field.2 + 2 ≤ fieldsWidth fields := by
  induction fields with
  | nil => cases member
  | cons first rest ih =>
    obtain ⟨name, item⟩ := first
    rw [fieldsWidth]
    rcases List.mem_cons.mp member with rfl | later
    · dsimp only
      omega
    · have wide := ih later
      omega

/-- What is in an array is at least as much narrower as the brackets and blanks are wide. -/
theorem flatWidth_item {item : Json} {items : List Json} (member : item ∈ items) :
    flatWidth item + 4 ≤ flatWidth (.array items) := by
  cases items with
  | nil => cases member
  | cons first rest =>
    rw [flatWidth]
    rcases List.mem_cons.mp member with rfl | later
    · omega
    · have wide := itemsWidth_mem later
      omega

theorem flatWidth_field {field : String × Json} {fields : List (String × Json)}
    (member : field ∈ fields) : flatWidth field.2 + 4 ≤ flatWidth (.object fields) := by
  cases fields with
  | nil => cases member
  | cons first rest =>
    obtain ⟨name, item⟩ := first
    rw [flatWidth]
    rcases List.mem_cons.mp member with rfl | later
    · dsimp only
      omega
    · have wide := fieldsWidth_mem later
      omega

mutual

/-- A document that fits is laid out on one line, and so is all that is in it. -/
theorem render_fits : ∀ (node : Json) {indent : Nat}, indent + flatWidth node ≤ maxWidth →
    render false indent node = oneLine node
  | .null, _, _ => rfl
  | .boolean _, _, _ => rfl
  | .number _, _, _ => rfl
  | .string _, _, _ => rfl
  | .array items, indent, fits => by
    have inside : ∀ item ∈ items, indent + 2 + flatWidth item ≤ maxWidth := by
      intro item member
      have narrower := flatWidth_item member
      omega
    rw [render, enclose_row fits, renderItems_fit items inside, oneLine]
  | .object fields, indent, fits => by
    have inside : ∀ field ∈ fields, indent + 2 + flatWidth field.2 ≤ maxWidth := by
      intro field member
      have narrower := flatWidth_field member
      omega
    rw [render, enclose_row fits, renderFields_fit fields inside, oneLine]

theorem renderItems_fit : ∀ (items : List Json) {indent : Nat},
    (∀ item ∈ items, indent + flatWidth item ≤ maxWidth) →
      renderItems false indent items = oneLineItems items
  | [], _, _ => rfl
  | item :: rest, _, fits => by
    obtain ⟨first, others⟩ := List.forall_mem_cons.mp fits
    rw [renderItems, oneLineItems, render_fits item first, renderItems_fit rest others]

theorem renderFields_fit : ∀ (fields : List (String × Json)) {indent : Nat},
    (∀ field ∈ fields, indent + flatWidth field.2 ≤ maxWidth) →
      renderFields false indent fields = oneLineFields fields
  | [], _, _ => rfl
  | (name, item) :: rest, _, fits => by
    obtain ⟨first, others⟩ := List.forall_mem_cons.mp fits
    rw [renderFields, oneLineFields, render_fits item first, renderFields_fit rest others]

end

theorem renderItems_eq_map (colors : Bool) (indent : Nat) (items : List Json) :
    renderItems colors indent items = items.map (render colors indent) := by
  induction items with
  | nil => rfl
  | cons item rest ih => rw [renderItems, List.map_cons, ih]

theorem renderFields_eq_map (colors : Bool) (indent : Nat) (fields : List (String × Json)) :
    renderFields colors indent fields = fields.map (fieldText (render colors indent)) := by
  induction fields with
  | nil => rfl
  | cons field rest ih =>
    obtain ⟨name, item⟩ := field
    rw [renderFields, List.map_cons, ih]
    rfl

/-- What stands in an array or an object, laid out; anything else has no entries. -/
def entries (lay : Json → List Char) : Json → List (List Char)
  | .array items => items.map lay
  | .object fields => fields.map (fieldText lay)
  | _ => []

/-- The brackets of an array or an object. -/
def brackets : Json → Char × Char
  | .object _ => ('\x7b', '\x7d')
  | _ => ('[', ']')

/-- What is not empty and does not fit is laid out with each entry on a line of its own. -/
theorem render_breaks {node : Json} {indent : Nat} (colors : Bool)
    (wide : maxWidth < indent + flatWidth node)
    (filled : entries (render colors (indent + 2)) node ≠ []) :
    render colors indent node =
      column (brackets node).1 (brackets node).2 indent (entries (render colors (indent + 2)) node) := by
  cases node with
  | null | boolean | number | string => exact absurd rfl filled
  | array items =>
    rw [render, renderItems_eq_map]
    exact enclose_column wide filled
  | object fields =>
    rw [render, renderFields_eq_map]
    exact enclose_column wide filled

/-- The reckoned width is exact. A document that fits in 72 columns from an indentation on is laid out
on one line, in exactly as many characters as reckoned and whatever the indentation is. An array or
object that does not fit, and is not empty, has each entry on a line of its own, two columns further
in. -/
theorem render_width (node : Json) (indent : Nat) :
    (indent + flatWidth node ≤ 72 →
      (render false indent node).length = flatWidth node ∧ render false indent node = oneLine node ∧
        ∀ other, other + flatWidth node ≤ 72 → render false other node = render false indent node) ∧
    (72 < indent + flatWidth node → entries (render false (indent + 2)) node ≠ [] →
      render false indent node =
        column (brackets node).1 (brackets node).2 indent
          (entries (render false (indent + 2)) node)) := by
  constructor
  · intro fits
    have one := render_fits node fits
    refine ⟨?_, one, ?_⟩
    · rw [one, length_oneLine]
    · intro other fitsToo
      rw [one, render_fits node fitsToo]
  · exact render_breaks false

/-- An object that just fits, and the same one a column further in. -/
theorem render_width_margin :
    let node : Json :=
      .object [("a", .null), ("b c", .array [.boolean true, .string "x"]), ("e", .object [])]
    32 + flatWidth node ≤ 72 ∧ 72 < 33 + flatWidth node ∧
      render false 32 node = "\x7b a: null, 'b c': [ true, 'x' ], e: \x7b\x7d \x7d".toList ∧
      render false 33 node = ("\x7b\n".toList ++ blanks 35 ++ "a: null,\n".toList ++ blanks 35 ++
        "'b c': [ true, 'x' ],\n".toList ++ blanks 35 ++ "e: \x7b\x7d\n".toList ++ blanks 33 ++
        "\x7d".toList) := by
  intro node
  have fits : 32 + flatWidth node ≤ 72 := by decide +kernel
  have wide : 72 < 33 + flatWidth node := by decide +kernel
  obtain ⟨_, one, _⟩ := (render_width node 32).1 fits
  have broken := (render_width node 33).2 wide nofun
  refine ⟨fits, wide, one.trans ?_, broken.trans ?_⟩
  · decide +kernel
  · decide +kernel

end RegisterMachine.Dump
