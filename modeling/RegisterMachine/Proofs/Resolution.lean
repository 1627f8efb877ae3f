import RegisterMachine.Proofs.Objects
import RegisterMachine.Proofs.Warnings

/-!
What reading an operand ends in, and which registers have a part in it. Null comes only from a text
in braces that is no JSON, and then with a warning; all else that has no value is refused. A literal is
read without the registers, and any other operand with the one register that it names
(`resolve_fate`).
-/

namespace RegisterMachine

namespace Json

/-- A text that begins with a brace is an object, if it is a document at all. -/
theorem parse_braced {cs : List Char} {v : Json} (first : cs.head? = some '\x7b')
    (parsed : parse cs = .ok v) : ∃ fields, v = .object fields := by
  obtain ⟨rest, rfl⟩ := List.head?_eq_some_iff.mp first
  unfold parse at parsed
  rw [readValue_brace 126] at parsed
  split at parsed
  · cases parsed
  · rename_i value after read
    obtain ⟨fields, _, _, same⟩ := map_ok read
    split at parsed
    · cases parsed
      cases same
      exact ⟨fields, rfl⟩
    · cases parsed

end Json

namespace Operand

/-- What reading an operand can end in. -/
inductive Fate where
  /-- A value, and no warning. -/
  | value
  /-- Null, and a warning of malformed JSON. -/
  | malformed
  /-- A fault of a register or of its path, and no warning. -/
  | refused
  deriving DecidableEq, Repr

namespace Fate

/-- The kinds of faults that an operand is refused with. -/
def refusals : List Kind := [.undefinedRegister, .undefinedSubitem, .nullSource]

/-- Whether an attempt to read an operand ended that way. -/
def Of (x : Attempt Value) : Fate → Prop
  | value => x.warnings = [] ∧ ∃ v, x.result = .ok v ∧ v.isNull = false
  | malformed => (∃ w, x.warnings = [w] ∧ w.kind = .malformedJson) ∧ x.result = .ok .null
  | refused => x.warnings = [] ∧ ∃ fault, x.result = .error fault ∧ fault.kind ∈ refusals

/-- The only way in which an attempt with this result can have ended. -/
def ofResult : Except Fault Value → Fate
  | .ok v => if v.isNull then malformed else value
  | .error _ => refused

theorem eq_ofResult {x : Attempt Value} {fate : Fate} (ended : fate.Of x) :
    fate = ofResult x.result := by
  cases fate with
  | value =>
    obtain ⟨_, v, result, filled⟩ := ended
    simp [result, ofResult, filled]
  | malformed =>
    rw [ended.2]
    rfl
  | refused =>
    obtain ⟨_, fault, result, _⟩ := ended
    rw [result]
    rfl

end Fate

/-- What an operand that is a literal stands for. -/
def literal? (source : String) : Option (Attempt Value) :=
  match unquote? source.toList with
  | some s => some (pure (.string (String.ofList s)))
  | none =>
    match Number.read? source with
    | some x => some (pure (.number x))
    | none =>
      if source = "true" then some (pure (.boolean true))
      else if source = "false" then some (pure (.boolean false))
      else if isBraced source.toList then
        match Json.parse source.toList with
        | .ok document => some (pure (.ofJson document))
        | .error failure =>
          some ⟨[], [.badJson (failure.message source.toList) source], .ok .null⟩
      else none

/-- An operand that is no literal is a register with a path. -/
theorem resolve_eq (source : String) (bank : Bank) :
    resolve source bank =
      (literal? source).getD (Attempt.ofExcept (resolvePath source bank)) := by
  unfold resolve literal?
  cases unquote? source.toList with
  | some s => rfl
  | none =>
    cases Number.read? source with
    | some x => rfl
    | none =>
      by_cases yes : source = "true"
      · rw [if_pos yes, if_pos yes]
        rfl
      · by_cases no : source = "false"
        · rw [if_neg yes, if_pos no, if_neg yes, if_pos no]
          rfl
        · rw [if_neg yes, if_neg no, if_neg yes, if_neg no]
          cases isBraced source.toList with
          | false => rfl
          | true => cases Json.parse source.toList <;> rfl

/-- How a literal looks: it begins with a quote, or is a number, or a word for a truth value, or it
stands in braces. -/
inductive Literal (source : String) : Prop where
  | quoted (first : source.toList.head? = some '"')
  | number (reads : Number.isLiteral source = true)
  | truth (word : source = "true" ∨ source = "false")
  | braced (first : source.toList.head? = some '\x7b') (last : source.toList.getLast? = some '\x7d')

theorem isSome_unquote? {cs : List Char} (first : cs.head? = some '"') :
    (unquote? cs).isSome = true := by
  obtain ⟨rest, rfl⟩ := List.head?_eq_some_iff.mp first
  rfl

theorem isBraced_iff {cs : List Char} :
    isBraced cs = true ↔ cs.head? = some '\x7b' ∧ cs.getLast? = some '\x7d' := by
  simp [isBraced]

theorem Literal.isSome {source : String} (literal : Literal source) :
    (literal? source).isSome = true := by
  unfold literal?
  cases quoted : unquote? source.toList with
  | some s => rfl
  | none =>
    cases number : Number.read? source with
    | some x => rfl
    | none =>
      cases literal with
      | quoted first =>
        have some := isSome_unquote? first
        rw [quoted] at some
        cases some
      | number reads =>
        rw [← Number.isSome_read?, number] at reads
        cases reads
      | truth word =>
        rcases word with yes | no
        · simp [yes]
        · simp [no]
      | braced first last =>
        obtain ⟨_, _, untrue, unfalse⟩ := braced_only (isBraced_iff.mpr ⟨first, last⟩)
        rw [if_neg untrue, if_neg unfalse, if_pos (isBraced_iff.mpr ⟨first, last⟩)]
        cases Json.parse source.toList <;> rfl

/-- What a literal ends in. -/
theorem literal?_fate {source : String} {x : Attempt Value} (literal : literal? source = some x) :
    Fate.value.Of x ∨ Fate.malformed.Of x := by
  unfold literal? at literal
  split at literal
  · cases literal
    exact .inl ⟨rfl, _, rfl, rfl⟩
  · split at literal
    · cases literal
      exact .inl ⟨rfl, _, rfl, rfl⟩
    · split at literal
      · cases literal
        exact .inl ⟨rfl, _, rfl, rfl⟩
      · split at literal
        · cases literal
          exact .inl ⟨rfl, _, rfl, rfl⟩
        · split at literal
          · rename_i braced
            split at literal
            · rename_i document parsed
              obtain ⟨fields, rfl⟩ := Json.parse_braced (isBraced_iff.mp braced).1 parsed
              cases literal
              exact .inl ⟨rfl, _, rfl, rfl⟩
            · cases literal
              exact .inr ⟨⟨_, rfl, rfl⟩, rfl⟩
          · cases literal

theorem follow_error {source parent : String} {v : Value} {path : List String} {fault : Fault}
    (failed : follow source parent v path = .error fault) : fault.kind = .undefinedSubitem := by
  induction path generalizing parent v with
  | nil => cases failed
  | cons segment rest ih =>
    unfold follow at failed
    split at failed
    · exact ih failed
    · cases failed
      rfl

/-- A register with a path gives a value that is not null, or is refused. -/
theorem resolvePath_fate (source : String) (bank : Bank) :
    Fate.value.Of (Attempt.ofExcept (resolvePath source bank)) ∨
      Fate.refused.Of (Attempt.ofExcept (resolvePath source bank)) := by
  unfold resolvePath
  simp only
  split
  · exact .inr ⟨rfl, _, rfl, by simp [Fault.kind, Fate.refusals]⟩
  · rename_i held found
    cases followed : follow source _ held _ with
    | error fault =>
      refine .inr ⟨rfl, fault, rfl, ?_⟩
      simp [follow_error followed, Fate.refusals]
    | ok v =>
      cases filled : v.isNull with
      | true =>
        refine .inr ⟨rfl, .nullSource source, ?_, by simp [Fault.kind, Fate.refusals]⟩
        simp [bind, Except.bind, filled, Attempt.ofExcept]
      | false =>
        refine .inl ⟨rfl, v, ?_, filled⟩
        simp [bind, Except.bind, filled, Attempt.ofExcept]

theorem exists_fate (source : String) (bank : Bank) :
    ∃ fate : Fate, fate.Of (resolve source bank) := by
  rw [resolve_eq]
  cases literal : literal? source with
  | some x =>
    rcases literal?_fate literal with value | malformed
    · exact ⟨.value, value⟩
    · exact ⟨.malformed, malformed⟩
  | none =>
    rcases resolvePath_fate source bank with value | refused
    · exact ⟨.value, value⟩
    · exact ⟨.refused, refused⟩

theorem complaint?_eq_some_iff {source : String} :
    (∃ w, complaint? source = some w) ↔
      isBraced source.toList = true ∧ ∃ failure, Json.parse source.toList = .error failure := by
  unfold complaint?
  cases isBraced source.toList with
  | false => simp
  | true => cases Json.parse source.toList <;> simp

/-- Null is read only from a text in braces that is no JSON. -/
theorem malformed_iff (source : String) (bank : Bank) :
    Fate.malformed.Of (resolve source bank) ↔
      isBraced source.toList = true ∧ ∃ failure, Json.parse source.toList = .error failure := by
  rw [← complaint?_eq_some_iff]
  have warnings := resolve_warnings source bank
  constructor
  · rintro ⟨⟨w, warned, _⟩, _⟩
    refine ⟨w, ?_⟩
    rw [warned] at warnings
    simpa using warnings.symm
  · rintro ⟨w, complaint⟩
    rw [complaint, Option.toList_some] at warnings
    obtain ⟨fate, ended⟩ := exists_fate source bank
    cases fate with
    | malformed => exact ended
    | value | refused =>
      have silent := ended.1
      rw [warnings] at silent
      cases silent

theorem segments_fst (cs : List Char) : (segments cs).1 = cs.takeWhile (· ≠ '.') := by
  induction cs with
  | nil => rfl
  | cons c cs ih =>
    by_cases point : c = '.'
    · simp [segments, point]
    · simp [segments, point, ih]

/-- The register that an operand names, before the first point. -/
def register (source : String) : String := String.ofList (source.toList.takeWhile (· ≠ '.'))

theorem resolvePath_bank {source : String} {bank other : Bank}
    (held : other.find? (register source) = bank.find? (register source)) :
    resolvePath source other = resolvePath source bank := by
  unfold resolvePath
  simp only [segments_fst]
  rw [register] at held
  rw [held]

/-- Reading an operand ends in one of three ways: with a value that is not null and no warning, with
null and one warning, or with a fault and no warning. Null is read exactly from a text in braces that
is no JSON. No register other than the one that stands before the first point has a part in it, and
none at all if the operand is a literal. -/
theorem resolve_fate (source : String) (bank : Bank) :
    (∃! fate : Fate, fate.Of (resolve source bank)) ∧
      (Fate.malformed.Of (resolve source bank) ↔
        source.toList.head? = some '\x7b' ∧ source.toList.getLast? = some '\x7d' ∧
          ∃ failure, Json.parse source.toList = .error failure) ∧
      (∀ other : Bank, other.find? (register source) = bank.find? (register source) →
        resolve source other = resolve source bank) ∧
      (Literal source → ∀ other : Bank, resolve source other = resolve source bank) := by
  refine ⟨?_, ?_, ?_, ?_⟩
  · obtain ⟨fate, ended⟩ := exists_fate source bank
    refine ⟨fate, ended, ?_⟩
    intro another endedToo
    rw [Fate.eq_ofResult ended, Fate.eq_ofResult endedToo]
  · rw [malformed_iff, isBraced_iff, and_assoc]
  · intro other held
    rw [resolve_eq, resolve_eq, resolvePath_bank held]
  · intro literal other
    obtain ⟨x, read⟩ := Option.isSome_iff_exists.mp literal.isSome
    rw [resolve_eq, resolve_eq, read]
    rfl

/-- A null inside a register is refused alike in two banks that differ in all other registers, and a
text in braces that is no JSON is null in both. -/
theorem resolve_fate_null :
    let bank : Bank := ⟨[("rg0", .object [("a", .null)]), ("rg1", .null)]⟩
    let other : Bank := ⟨[("a", .boolean true), ("rg0", .object [("a", .null)])]⟩
    other.find? (register "rg0.a") = bank.find? (register "rg0.a") ∧
      resolve "rg0.a" other = resolve "rg0.a" bank ∧ Fate.refused.Of (resolve "rg0.a" bank) ∧
      Literal "\x7ba\x7d" ∧ resolve "\x7ba\x7d" other = resolve "\x7ba\x7d" bank ∧
      Fate.malformed.Of (resolve "\x7ba\x7d" bank) := by
  intro bank other
  have held : other.find? (register "rg0.a") = bank.find? (register "rg0.a") := rfl
  have literal : Literal "\x7ba\x7d" := .braced rfl rfl
  obtain ⟨_, _, register, _⟩ := resolve_fate "rg0.a" bank
  obtain ⟨_, malformed, _, constant⟩ := resolve_fate "\x7ba\x7d" bank
  refine ⟨held, register other held, ?_, literal, constant literal other, ?_⟩
  · exact ⟨rfl, .nullSource "rg0.a", rfl, by decide⟩
  · exact malformed.mpr ⟨rfl, rfl, _, rfl⟩

end Operand

end RegisterMachine
