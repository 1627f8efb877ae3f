import RegisterMachine.Proofs.Rows

/-!
Colours in dumps. Style sequences are written around scalars only, and no width or indentation counts
them, so a dump in colour is the plain dump with style sequences in between (`text_unstyled`).
-/

namespace RegisterMachine.Dump

mutual

/-- A text without its style sequences, which are an escape character, a bracket and all up to the next
`m`. -/
def withoutStyles : List Char → List Char
  | [] => []
  | '\x1b' :: '[' :: rest => afterStyle rest
  | c :: rest => c :: withoutStyles rest

/-- A text that begins in a style sequence, without that one and all others. -/
def afterStyle : List Char → List Char
  | [] => []
  | c :: rest => if c = 'm' then withoutStyles rest else afterStyle rest

end

/-- Without styles the first text is the second, whatever follows. -/
def Fades (styled plain : List Char) : Prop :=
  ∀ rest, withoutStyles (styled ++ rest) = plain ++ withoutStyles rest

theorem Fades.append {a b c d : List Char} (first : Fades a b) (second : Fades c d) :
    Fades (a ++ c) (b ++ d) := by
  intro rest
  rw [List.append_assoc, first, second, List.append_assoc]

/-- Text without escape characters stays as it is. -/
theorem fades_plain {cs : List Char} (plain : '\x1b' ∉ cs) : Fades cs cs := by
  intro rest
  induction cs with
  | nil => rfl
  | cons c cs ih =>
    rw [List.mem_cons, not_or] at plain
    have other : c ≠ '\x1b' := fun same => plain.1 same.symm
    rw [List.cons_append, withoutStyles, ih plain.2, List.cons_append]
    intro _ same
    exact absurd same other

theorem fades_style (style : Style) : Fades style.start [] := by
  intro rest
  cases style with
  | bold => rfl
  | yellow => rfl
  | green => rfl

theorem fades_plainAgain : Fades plainAgain [] := fun _ => rfl

theorem fades_paint (style : Style) {cs : List Char} (plain : '\x1b' ∉ cs) :
    Fades (paint true style cs) (paint false style cs) := by
  have painted := ((fades_style style).append (fades_plain plain)).append fades_plainAgain
  rwa [List.nil_append, List.append_nil] at painted

theorem fades_intercalate (separator : List Char) (plain : '\x1b' ∉ separator) {α : Type}
    {styled unstyled : α → List Char} {parts : List α}
    (inside : ∀ part ∈ parts, Fades (styled part) (unstyled part)) :
    Fades (separator.intercalate (parts.map styled)) (separator.intercalate (parts.map unstyled)) := by
  induction parts with
  | nil => exact fades_plain (by simp)
  | cons part rest ih =>
    obtain ⟨first, others⟩ := List.forall_mem_cons.mp inside
    have later := ih others
    cases rest with
    | nil => simpa using first
    | cons next rest =>
      simp only [List.map_cons, List.intercalate_cons_cons] at later ⊢
      exact (first.append (fades_plain plain)).append later

/-- The layout of entries is the same in colour, as it only depends on widths that were reckoned without
colours. -/
theorem fades_enclose {opening closing : Char} (left : '\x1b' ≠ opening) (right : '\x1b' ≠ closing)
    (indent width : Nat) {α : Type} {styled unstyled : α → List Char} {parts : List α}
    (inside : ∀ part ∈ parts, Fades (styled part) (unstyled part)) :
    Fades (enclose opening closing indent width (parts.map styled))
      (enclose opening closing indent width (parts.map unstyled)) := by
  unfold enclose
  rw [List.isEmpty_map, List.isEmpty_map]
  split
  · exact fades_plain (by simp [left, right])
  · split
    · have before : Fades [opening, ' '] [opening, ' '] := fades_plain (by simp [left])
      have after : Fades [' ', closing] [' ', closing] := fades_plain (by simp [right])
      exact (before.append (fades_intercalate _ (by decide) inside)).append after
    · have margin : Fades (blanks (indent + 2)) (blanks (indent + 2)) := fades_plain (by simp [blanks])
      have before : Fades [opening, '\n'] [opening, '\n'] := fades_plain (by simp [left])
      have after : Fades ('\n' :: blanks indent ++ [closing]) ('\n' :: blanks indent ++ [closing]) :=
        fades_plain (by simp [blanks, right])
      rw [List.map_map, List.map_map]
      have body := fades_intercalate [',', '\n'] (by decide) fun part member =>
        margin.append (inside part member)
      have all := (before.append body).append after
      simpa [Function.comp_def] using all

theorem fades_render (node : Json) (plain : node.Without '\x1b') (indent : Nat) :
    Fades (render true indent node) (render false indent node) := by
  induction node using parts_induct generalizing indent with
  | step node ih =>
    have inside : ∀ part ∈ parts node,
        Fades (part.1 ++ render true (indent + 2) part.2) (part.1 ++ render false (indent + 2) part.2) := by
      intro part member
      obtain ⟨label, held⟩ := without_parts (by decide) plain part member
      exact (fades_plain label).append (ih part member held (indent + 2))
    cases node with
    | null => exact fades_paint .bold (by decide)
    | boolean b =>
      cases b with
      | true => exact fades_paint .yellow (by decide)
      | false => exact fades_paint .yellow (by decide)
    | number n =>
      apply fades_paint .yellow
      intro escape
      cases Number.text_numerals n.toDouble '\x1b' escape
    | string s =>
      apply fades_paint .green
      exact not_mem_quote (by decide) (plain s List.mem_cons_self)
    | array items =>
      rw [render_array, render_array]
      exact fades_enclose (by decide) (by decide) indent _ inside
    | object fields =>
      rw [render_object, render_object]
      exact fades_enclose (by decide) (by decide) indent _ inside

/-- Colours change neither the text of a dump nor its layout: without its style sequences, the dump in
colour is the plain dump, if no string, key or name has an escape character. -/
theorem text_unstyled (d : Dump) (plain : d.Without '\x1b') :
    withoutStyles (d.text true).toList = (d.text false).toList := by
  have fades := fades_render d.toJson (toJson_without (by decide) plain) 0 []
  simpa [text, withoutStyles] using fades

/-- A call with a quoted parameter, in colour. -/
theorem text_unstyled_call :
    let d : Dump := .frames [⟨"f", 12, ["it's"], 3, none⟩]
    d.Without '\x1b' ∧ withoutStyles (d.text true).toList = (d.text false).toList ∧
      d.text true = "[ \x7b name: \x1b[32m'f'\x1b[0m, callingLine: \x1b[33m12\x1b[0m, " ++
        "parameters: [ \x1b[32m'it\\'s'\x1b[0m ] \x7d ]" := by
  intro d
  have plain : ∀ s ∈ d.texts, '\x1b' ∉ s.toList := by decide +kernel
  exact ⟨plain, text_unstyled d plain, by decide +kernel⟩

end RegisterMachine.Dump
