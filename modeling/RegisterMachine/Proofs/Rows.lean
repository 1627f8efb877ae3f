import RegisterMachine.Event
import RegisterMachine.Proofs.Numerals
import RegisterMachine.Proofs.Widths

/-!
The lines of dumps. `rows` says what each line of a dump shows and how far in it begins, and `lines_render`
that these are the lines of the text. A filled array or object that stands on one line ends in the first
72 columns if its key is not counted; neither the key before it nor the comma after it was reckoned with
(`rows_width`, `keyed_too_wide`).
-/

namespace RegisterMachine

mutual

/-- The strings and keys in a document. -/
def Json.texts : Json → List String
  | .null => []
  | .boolean _ => []
  | .number _ => []
  | .string s => [s]
  | .array items => textsOfItems items
  | .object fields => textsOfFields fields

def Json.textsOfItems : List Json → List String
  | [] => []
  | item :: rest => item.texts ++ textsOfItems rest

def Json.textsOfFields : List (String × Json) → List String
  | [] => []
  | (name, item) :: rest => name :: item.texts ++ textsOfFields rest

end

theorem Json.textsOfItems_eq (items : List Json) : textsOfItems items = items.flatMap texts := by
  induction items with
  | nil => rfl
  | cons item rest ih => rw [textsOfItems, ih, List.flatMap_cons]

theorem Json.textsOfFields_eq (fields : List (String × Json)) :
    textsOfFields fields = fields.flatMap fun field => field.1 :: field.2.texts := by
  induction fields with
  | nil => rfl
  | cons field rest ih =>
    obtain ⟨name, item⟩ := field
    rw [textsOfFields, ih, List.flatMap_cons]

/-- No string and no key in a document has the character. -/
def Json.Without (c : Char) (node : Json) : Prop := ∀ s ∈ node.texts, c ∉ s.toList

namespace Dump

/-- The strings, keys and names in a dump. -/
def texts : Dump → List String
  | value v => v.toJson.texts
  | registers bank => bank.flatMap fun (name, v) => name :: v.toJson.texts
  | frames calls => calls.flatMap fun f => f.function :: f.parameters

/-- No string, key or name in a dump has the character. -/
def Without (c : Char) (d : Dump) : Prop := ∀ s ∈ d.texts, c ∉ s.toList

/-- The keys that active calls are shown with. -/
def frameKeys : List String := ["name", "callingLine", "parameters"]

/-- All strings and keys in the document of a dump come from the dump, but for the keys of calls. -/
theorem texts_toJson {d : Dump} {s : String} (member : s ∈ d.toJson.texts) :
    s ∈ d.texts ∨ s ∈ frameKeys := by
  cases d with
  | value v => exact .inl member
  | registers bank =>
    left
    rw [toJson, Json.texts, Json.textsOfFields_eq, List.flatMap_map] at member
    exact member
  | frames calls =>
    rw [toJson, Json.texts, Json.textsOfItems_eq, List.flatMap_map] at member
    obtain ⟨f, called, shown⟩ := List.mem_flatMap.mp member
    have given : s ∈ f.function :: f.parameters → s ∈ (frames calls).texts :=
      fun inside => List.mem_flatMap.mpr ⟨f, called, inside⟩
    have all : f.toJson.texts =
        "name" :: f.function :: "callingLine" :: "parameters" :: f.parameters := by
      simp [Frame.toJson, Json.texts, Json.textsOfFields, Json.textsOfItems_eq, List.flatMap_map]
    rw [all] at shown
    simp only [List.mem_cons, frameKeys] at shown given ⊢
    tauto

theorem toJson_without {d : Dump} {c : Char} (fixed : ∀ s ∈ frameKeys, c ∉ s.toList)
    (without : d.Without c) : d.toJson.Without c := by
  intro s member
  rcases texts_toJson member with inside | key
  · exact without s inside
  · exact fixed s key

/-- What stands in an array or an object, each with the label before it: the key of a field with its
colon, and nothing before an item. -/
def parts : Json → List (List Char × Json)
  | .array items => items.map fun item => ([], item)
  | .object fields => fields.map fun field => (key field.1.toList ++ [':', ' '], field.2)
  | _ => []

theorem entries_eq_map (lay : Json → List Char) (node : Json) :
    entries lay node = (parts node).map fun part => part.1 ++ lay part.2 := by
  cases node with
  | null | boolean | number | string => rfl
  | array items => simp [entries, parts]
  | object fields => simp [entries, parts, fieldText]

theorem entries_ne_nil (lay : Json → List Char) {node : Json} (filled : parts node ≠ []) :
    entries lay node ≠ [] := by
  rw [entries_eq_map]
  exact mt List.map_eq_nil_iff.mp filled

theorem render_array (colors : Bool) (indent : Nat) (items : List Json) :
    render colors indent (.array items) =
      enclose '[' ']' indent (flatWidth (.array items))
        ((parts (.array items)).map fun part => part.1 ++ render colors (indent + 2) part.2) := by
  rw [← entries_eq_map, entries, ← renderItems_eq_map, render]

theorem render_object (colors : Bool) (indent : Nat) (fields : List (String × Json)) :
    render colors indent (.object fields) =
      enclose '\x7b' '\x7d' indent (flatWidth (.object fields))
        ((parts (.object fields)).map fun part => part.1 ++ render colors (indent + 2) part.2) := by
  rw [← entries_eq_map, entries, ← renderFields_eq_map, render]

mutual

/-- What holds of a document if it holds of all that stands in it, holds of every document. -/
theorem parts_induct {motive : Json → Prop}
    (step : ∀ node, (∀ part ∈ parts node, motive part.2) → motive node) : ∀ node, motive node
  | .null => step _ (by simp [parts])
  | .boolean _ => step _ (by simp [parts])
  | .number _ => step _ (by simp [parts])
  | .string _ => step _ (by simp [parts])
  | .array items => step _ (List.forall_mem_map.mpr (items_induct step items))
  | .object fields => step _ (List.forall_mem_map.mpr (fields_induct step fields))

theorem items_induct {motive : Json → Prop}
    (step : ∀ node, (∀ part ∈ parts node, motive part.2) → motive node) :
    ∀ items : List Json, ∀ item ∈ items, motive item
  | [] => by simp
  | item :: rest => List.forall_mem_cons.mpr ⟨parts_induct step item, items_induct step rest⟩

theorem fields_induct {motive : Json → Prop}
    (step : ∀ node, (∀ part ∈ parts node, motive part.2) → motive node) :
    ∀ fields : List (String × Json), ∀ field ∈ fields, motive field.2
  | [] => by simp
  | (_, item) :: rest => List.forall_mem_cons.mpr ⟨parts_induct step item, fields_induct step rest⟩

end

theorem not_mem_quote {c : Char} (other : c ∉ ['\\', '\x27']) {cs : List Char} (without : c ∉ cs) :
    c ∉ quote cs := by
  rw [List.mem_pair, not_or] at other
  have inside : ∀ d ∈ cs, c ∉ escaped d := by
    intro d member
    have different : c ≠ d := fun same => without (same ▸ member)
    unfold escaped
    split
    · simp [other.1, different]
    · simp [different]
  simpa [quote, other.2] using inside

theorem not_mem_key {c : Char} (other : c ∉ ['\\', '\x27']) {cs : List Char} (without : c ∉ cs) :
    c ∉ key cs := by
  unfold key
  split
  · exact without
  · exact not_mem_quote other without

/-- What is in neither the strings nor the keys of a document is not in those of its parts, and not in
their labels. -/
theorem without_parts {c : Char} (other : c ∉ ['\\', '\x27', ':', ' ']) {node : Json}
    (without : node.Without c) : ∀ part ∈ parts node, c ∉ part.1 ∧ part.2.Without c := by
  cases node with
  | null | boolean | number | string => simp [parts]
  | array items =>
    intro part member
    obtain ⟨item, inside, rfl⟩ := List.mem_map.mp member
    refine ⟨List.not_mem_nil, fun s text => without s ?_⟩
    rw [Json.texts, Json.textsOfItems_eq]
    exact List.mem_flatMap.mpr ⟨item, inside, text⟩
  | object fields =>
    intro part member
    obtain ⟨field, inside, rfl⟩ := List.mem_map.mp member
    have texts : ∀ s ∈ field.1 :: field.2.texts, c ∉ s.toList := by
      intro s text
      apply without s
      rw [Json.texts, Json.textsOfFields_eq]
      exact List.mem_flatMap.mpr ⟨field, inside, text⟩
    obtain ⟨named, held⟩ := List.forall_mem_cons.mp texts
    simp only [List.mem_cons, not_or] at other
    have keyed := not_mem_key (by simp [other]) named
    refine ⟨?_, held⟩
    simp [keyed, other]

/-- What a line of a dump shows: all of a document, or a bracket of one. -/
inductive Shown where
  | whole (node : Json)
  | bracket (c : Char)

/-- A line of a dump. The label is the key that an entry stands under, with what follows it. -/
structure Row where
  indent : Nat
  label : List Char
  shown : Shown
  comma : Bool

def Shown.text : Shown → List Char
  | whole node => oneLine node
  | bracket c => [c]

def ending (comma : Bool) : List Char := if comma then [','] else []

def Row.text (r : Row) : List Char := blanks r.indent ++ r.label ++ r.shown.text ++ ending r.comma

mutual

/-- The lines of a document that stands at an indentation, after a label and maybe before a comma: one,
unless it is laid out with line breaks. -/
def rows (indent : Nat) (label : List Char) (comma : Bool) : Json → List Row
  | .array items =>
    if '\n' ∈ render false indent (.array items) then
      ⟨indent, label, .bracket '[', false⟩ :: itemRows (indent + 2) items ++
        [⟨indent, [], .bracket ']', comma⟩]
    else [⟨indent, label, .whole (.array items), comma⟩]
  | .object fields =>
    if '\n' ∈ render false indent (.object fields) then
      ⟨indent, label, .bracket '\x7b', false⟩ :: fieldRows (indent + 2) fields ++
        [⟨indent, [], .bracket '\x7d', comma⟩]
    else [⟨indent, label, .whole (.object fields), comma⟩]
  | scalar => [⟨indent, label, .whole scalar, comma⟩]

def itemRows (indent : Nat) : List Json → List Row
  | [] => []
  | item :: rest => rows indent [] (!rest.isEmpty) item ++ itemRows indent rest

def fieldRows (indent : Nat) : List (String × Json) → List Row
  | [] => []
  | (name, item) :: rest =>
    rows indent (key name.toList ++ [':', ' ']) (!rest.isEmpty) item ++ fieldRows indent rest

end

/-- The lines of what stands in an array or an object. -/
def partRows (indent : Nat) : List (List Char × Json) → List Row
  | [] => []
  | (label, item) :: rest => rows indent label (!rest.isEmpty) item ++ partRows indent rest

theorem itemRows_eq (indent : Nat) (items : List Json) :
    itemRows indent items = partRows indent (parts (.array items)) := by
  induction items with
  | nil => rfl
  | cons item rest ih =>
    rw [itemRows, ih]
    simp [parts, partRows]

theorem fieldRows_eq (indent : Nat) (fields : List (String × Json)) :
    fieldRows indent fields = partRows indent (parts (.object fields)) := by
  induction fields with
  | nil => rfl
  | cons field rest ih =>
    obtain ⟨name, item⟩ := field
    rw [fieldRows, ih]
    simp [parts, partRows]

/-- What is laid out without a line break is one line. -/
theorem rows_single {node : Json} {indent : Nat} (single : '\n' ∉ render false indent node)
    (label : List Char) (comma : Bool) :
    rows indent label comma node = [⟨indent, label, .whole node, comma⟩] := by
  cases node with
  | null | boolean | number | string => rfl
  | array items => rw [rows, if_neg single]
  | object fields => rw [rows, if_neg single]

/-- What is laid out with line breaks has a line for each bracket and those of its parts between them. -/
theorem rows_broken {node : Json} {indent : Nat} (filled : parts node ≠ [])
    (broken : '\n' ∈ render false indent node) (label : List Char) (comma : Bool) :
    rows indent label comma node =
      ⟨indent, label, .bracket (brackets node).1, false⟩ :: partRows (indent + 2) (parts node) ++
        [⟨indent, [], .bracket (brackets node).2, comma⟩] := by
  cases node with
  | null | boolean | number | string => exact absurd rfl filled
  | array items =>
    rw [rows, if_pos broken, itemRows_eq]
    rfl
  | object fields =>
    rw [rows, if_pos broken, fieldRows_eq]
    rfl

/-- Where nothing stands in a document, it is laid out in one way only. -/
theorem empty_single {node : Json} (empty : parts node = []) (indent : Nat) (label : List Char)
    (comma : Bool) :
    render false indent node = oneLine node ∧
      rows indent label comma node = [⟨indent, label, .whole node, comma⟩] := by
  cases node with
  | null | boolean | number | string => exact ⟨rfl, rfl⟩
  | array items =>
    rw [parts, List.map_eq_nil_iff] at empty
    subst empty
    exact ⟨rfl, rfl⟩
  | object fields =>
    rw [parts, List.map_eq_nil_iff] at empty
    subst empty
    exact ⟨rfl, rfl⟩

theorem unbroken_brackets (node : Json) : (brackets node).1 ≠ '\n' ∧ (brackets node).2 ≠ '\n' := by
  unfold brackets
  split
  · decide
  · decide

theorem unbroken_row {opening closing : Char} (left : opening ≠ '\n') (right : closing ≠ '\n')
    {entries : List (List Char)} (inside : ∀ entry ∈ entries, '\n' ∉ entry) :
    '\n' ∉ row opening closing entries := by
  cases entries with
  | nil => simp [row, left.symm, right.symm]
  | cons entry rest =>
    obtain ⟨first, others⟩ := List.forall_mem_cons.mp inside
    simpa [row, left.symm, right.symm, first] using others

theorem oneLine_array (items : List Json) :
    oneLine (.array items) = row '[' ']' (entries oneLine (.array items)) := by
  have laid : oneLineItems items = items.map oneLine := by
    induction items with
    | nil => rfl
    | cons item rest ih => rw [oneLineItems, ih, List.map_cons]
  rw [oneLine, laid, entries]

theorem oneLine_object (fields : List (String × Json)) :
    oneLine (.object fields) = row '\x7b' '\x7d' (entries oneLine (.object fields)) := by
  have laid : oneLineFields fields = fields.map (fieldText oneLine) := by
    induction fields with
    | nil => rfl
    | cons field rest ih =>
      obtain ⟨name, item⟩ := field
      rw [oneLineFields, ih, List.map_cons, fieldText]
  rw [oneLine, laid, entries]

theorem unbroken_oneLine {node : Json} (unbroken : node.Without '\n') : '\n' ∉ oneLine node := by
  induction node using parts_induct with
  | step node ih =>
    have inside : ∀ entry ∈ entries oneLine node, '\n' ∉ entry := by
      rw [entries_eq_map, List.forall_mem_map]
      intro part member
      obtain ⟨label, held⟩ := without_parts (by decide) unbroken part member
      exact List.mem_append.not.mpr (not_or.mpr ⟨label, ih part member held⟩)
    cases node with
    | null => decide
    | boolean b => cases b <;> decide
    | number n =>
      intro feed
      cases Number.text_numerals n.toDouble '\n' feed
    | string s => exact not_mem_quote (by decide) (unbroken s List.mem_cons_self)
    | array items =>
      rw [oneLine_array]
      exact unbroken_row (by decide) (by decide) inside
    | object fields =>
      rw [oneLine_object]
      exact unbroken_row (by decide) (by decide) inside

/-- What is laid out without a line break stands on one line with all that is in it. -/
theorem render_single {node : Json} {indent : Nat} (single : '\n' ∉ render false indent node) :
    render false indent node = oneLine node ∧
      (parts node ≠ [] → indent + flatWidth node ≤ maxWidth) := by
  by_cases fits : indent + flatWidth node ≤ maxWidth
  · exact ⟨render_fits node fits, fun _ => fits⟩
  · have empty : parts node = [] := by
      by_contra filled
      have some := entries_ne_nil (render false (indent + 2)) filled
      rw [render_breaks false (Nat.lt_of_not_le fits) some] at single
      simp [column] at single
    exact ⟨(empty_single empty indent [] false).1, fun filled => absurd empty filled⟩

/-- What is laid out with a line break does not fit. -/
theorem wide_of_broken {node : Json} {indent : Nat} (unbroken : node.Without '\n')
    (broken : '\n' ∈ render false indent node) : maxWidth < indent + flatWidth node := by
  by_contra fits
  rw [render_fits node (Nat.le_of_not_lt fits)] at broken
  exact unbroken_oneLine unbroken broken

theorem lines_shown (indent : Nat) {label : List Char} (labelled : '\n' ∉ label) (shown : Shown)
    (single : '\n' ∉ shown.text) (comma : Bool) :
    (blanks indent ++ label ++ shown.text ++ ending comma).splitOn '\n' =
      [(Row.mk indent label shown comma).text] := by
  apply List.splitOn_eq_singleton
  cases comma <;> simp [blanks, ending, labelled, single]

theorem column_eq (opening closing : Char) (indent : Nat) {entries : List (List Char)}
    (filled : entries ≠ []) :
    column opening closing indent entries =
      [opening] ++ '\n' :: ([',', '\n'].intercalate (entries.map (blanks (indent + 2) ++ ·)) ++
        '\n' :: (blanks indent ++ [closing])) := by
  have wide : maxWidth < indent + (maxWidth + 1) := by omega
  rw [← enclose_column wide filled, enclose, if_neg (by simpa using filled), if_neg (by omega)]
  simp

/-- The lines of entries that each begin on a line of their own, between the lines of the brackets. -/
theorem lines_column {opening closing : Char} (left : opening ≠ '\n') (right : closing ≠ '\n')
    (indent : Nat) {label : List Char} (labelled : '\n' ∉ label) (comma : Bool)
    {entries : List (List Char)} (filled : entries ≠ []) :
    (blanks indent ++ label ++ column opening closing indent entries ++ ending comma).splitOn '\n' =
      (Row.mk indent label (.bracket opening) false).text ::
        ([',', '\n'].intercalate (entries.map (blanks (indent + 2) ++ ·))).splitOn '\n' ++
        [(Row.mk indent [] (.bracket closing) comma).text] := by
  have first := lines_shown indent labelled (.bracket opening) (by simp [Shown.text, left.symm]) false
  have last := lines_shown indent List.not_mem_nil (.bracket closing)
    (by simp [Shown.text, right.symm]) comma
  rw [column_eq _ _ _ filled]
  generalize [',', '\n'].intercalate (entries.map (blanks (indent + 2) ++ ·)) = body
  have lines : blanks indent ++ label ++
        ([opening] ++ '\n' :: (body ++ '\n' :: (blanks indent ++ [closing]))) ++ ending comma =
      (blanks indent ++ label ++ (Shown.bracket opening).text ++ ending false) ++
        '\n' :: (body ++ '\n' ::
          (blanks indent ++ [] ++ (Shown.bracket closing).text ++ ending comma)) := by
    simp [Shown.text, ending]
  rw [lines, List.splitOn_append_cons_self, List.splitOn_append_cons_self, first, last]
  rfl

/-- An entry that another one follows ends its last line with a comma. -/
theorem lines_next (entry next : List Char) (rest : List (List Char)) :
    ([',', '\n'].intercalate (entry :: next :: rest)).splitOn '\n' =
      (entry ++ [',']).splitOn '\n' ++ ([',', '\n'].intercalate (next :: rest)).splitOn '\n' := by
  rw [List.intercalate_cons_cons, ← List.splitOn_append_cons_self]
  simp

theorem lines_parts {indent : Nat} {ps : List (List Char × Json)} (filled : ps ≠ [])
    (inside : ∀ part ∈ ps, ∀ comma,
      (blanks indent ++ part.1 ++ render false indent part.2 ++ ending comma).splitOn '\n' =
        (rows indent part.1 comma part.2).map Row.text) :
    ([',', '\n'].intercalate
      ((ps.map fun part => part.1 ++ render false indent part.2).map (blanks indent ++ ·))).splitOn '\n' =
      (partRows indent ps).map Row.text := by
  induction ps with
  | nil => exact absurd rfl filled
  | cons part rest ih =>
    obtain ⟨first, others⟩ := List.forall_mem_cons.mp inside
    cases rest with
    | nil => simpa [partRows, ending] using first false
    | cons next rest =>
      have later := ih (List.cons_ne_nil _ _) others
      have first := first true
      rw [List.append_assoc (blanks indent)] at first
      rw [partRows, List.map_append, ← later]
      simp only [List.map_cons]
      rw [lines_next]
      exact congrArg (· ++ _) first

/-- The rows of a document are the lines of its text. -/
theorem lines_render (node : Json) (unbroken : node.Without '\n') (indent : Nat) {label : List Char}
    (labelled : '\n' ∉ label) (comma : Bool) :
    (blanks indent ++ label ++ render false indent node ++ ending comma).splitOn '\n' =
      (rows indent label comma node).map Row.text := by
  induction node using parts_induct generalizing indent label comma with
  | step node ih =>
    by_cases broken : '\n' ∈ render false indent node
    · by_cases filled : parts node = []
      · rw [(empty_single filled indent label comma).1] at broken
        exact absurd broken (unbroken_oneLine unbroken)
      · have wide := wide_of_broken unbroken broken
        obtain ⟨left, right⟩ := unbroken_brackets node
        have some := entries_ne_nil (render false (indent + 2)) filled
        rw [rows_broken filled broken, render_breaks false wide some,
          lines_column left right indent labelled comma some,
          entries_eq_map, lines_parts filled]
        · simp
        · intro part member comma
          obtain ⟨label, held⟩ := without_parts (by decide) unbroken part member
          exact ih part member held (indent + 2) label comma
    · obtain ⟨one, _⟩ := render_single broken
      rw [rows_single broken, one]
      exact lines_shown indent labelled (.whole node) (unbroken_oneLine unbroken) comma

/-- A filled array or object that is shown as a whole ends in the first 72 columns if nothing but the
indentation stands before it. -/
def Row.Fits (r : Row) : Prop :=
  ∀ node, r.shown = .whole node → parts node ≠ [] → r.indent + (oneLine node).length ≤ 72

theorem partRows_fit {indent : Nat} {ps : List (List Char × Json)}
    (inside : ∀ part ∈ ps, ∀ comma, ∀ row ∈ rows indent part.1 comma part.2, row.Fits) :
    ∀ row ∈ partRows indent ps, row.Fits := by
  induction ps with
  | nil => simp [partRows]
  | cons part rest ih =>
    obtain ⟨first, others⟩ := List.forall_mem_cons.mp inside
    exact List.forall_mem_append.mpr ⟨first _, ih others⟩

theorem rows_fit (node : Json) (indent : Nat) (label : List Char) (comma : Bool) :
    ∀ row ∈ rows indent label comma node, row.Fits := by
  induction node using parts_induct generalizing indent label comma with
  | step node ih =>
    by_cases broken : '\n' ∈ render false indent node
    · by_cases filled : parts node = []
      · rw [(empty_single filled indent label comma).2, List.forall_mem_singleton]
        intro _ whole some
        cases whole
        exact absurd filled some
      · rw [rows_broken filled broken, List.forall_mem_append, List.forall_mem_cons,
          List.forall_mem_singleton]
        refine ⟨⟨?_, partRows_fit fun part member comma => ih part member (indent + 2) part.1 comma⟩, ?_⟩
        · intro _ whole
          cases whole
        · intro _ whole
          cases whole
    · rw [rows_single broken, List.forall_mem_singleton]
      intro _ whole filled
      cases whole
      rw [length_oneLine]
      exact (render_single broken).2 filled

/-- In a dump without line breaks in its strings, keys and names, a line that shows a filled array or
object as a whole has at most 72 columns besides the key before it and the comma after it. -/
theorem rows_width (d : Dump) (unbroken : d.Without '\n') :
    (d.text false).toList.splitOn '\n' = (rows 0 [] false d.toJson).map Row.text ∧
      ∀ row ∈ rows 0 [] false d.toJson, ∀ node, row.shown = .whole node → parts node ≠ [] →
        row.text.length ≤ 72 + row.label.length + row.comma.toNat := by
  constructor
  · have lines := lines_render d.toJson (toJson_without (by decide) unbroken) 0 List.not_mem_nil false
    simpa [text, blanks, ending] using lines
  · intro row member node whole filled
    have fits := rows_fit d.toJson 0 [] false row member node whole filled
    have width : (ending row.comma).length = row.comma.toNat := by cases row.comma <;> rfl
    rw [Row.text, whole, Shown.text]
    simp only [List.length_append, blanks, List.length_replicate, width]
    omega

/-- An array of 70 columns, two columns in and behind a key of three. -/
theorem rows_width_keyed :
    let node : Json := .array [.string (String.ofList (List.replicate 64 'a'))]
    let d : Dump := .value (.object [("k", node)])
    let row : Row := ⟨2, "k: ".toList, .whole node, false⟩
    d.Without '\n' ∧ row ∈ rows 0 [] false d.toJson ∧
      row.text.length ≤ 72 + row.label.length + row.comma.toNat := by
  intro node d row
  have unbroken : ∀ s ∈ d.texts, '\n' ∉ s.toList := by decide +kernel
  have broken : '\n' ∈ render false 0 (.object [("k", node)]) := by decide +kernel
  have single : '\n' ∉ render false (0 + 2) node := by decide +kernel
  have member : row ∈ rows 0 [] false d.toJson := by
    have inner := rows_single single "k: ".toList false
    change row ∈ rows 0 [] false (.object [("k", node)])
    rw [rows, if_pos broken]
    change row ∈ _ :: (rows (0 + 2) "k: ".toList false node ++ _) ++ _
    rw [inner]
    exact List.mem_cons_of_mem _ List.mem_cons_self
  exact ⟨unbroken, member, (rows_width d unbroken).2 row member node rfl (List.cons_ne_nil _ _)⟩

/-- Its line is wider than 72 columns. -/
theorem keyed_too_wide :
    let node : Json := .array [.string (String.ofList (List.replicate 64 'a'))]
    let d : Dump := .value (.object [("k", node)])
    let line := blanks 2 ++ "k: ".toList ++ oneLine node
    d.Without '\n' ∧ parts node ≠ [] ∧
      (d.text false).toList.splitOn '\n' = ["\x7b".toList, line, "\x7d".toList] ∧
      line.length = 75 := by
  intro node d line
  have unbroken : ∀ s ∈ d.texts, '\n' ∉ s.toList := by decide +kernel
  exact ⟨unbroken, List.cons_ne_nil _ _, by decide +kernel, by decide +kernel⟩

end Dump

end RegisterMachine
