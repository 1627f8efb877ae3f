import RegisterMachine.Proofs.Moves
import RegisterMachine.Proofs.Rounding

/-!
Numbers and the strings that write them. Whatever computes with a value looks at `toNumber?` only,
so values that count as the same number can stand for each other (`Interchanges.of_toNumber?`). The
number of a literal and the string of its text do so as long as the literal rounds to a finite double
(`literal_interchanges`). Beyond that the number is refused and the string counts as an infinity.
-/

namespace RegisterMachine

/-- Two computations end alike: with the same result, or with faults of the same kind. -/
def Alike {α : Type} : Except Fault α → Except Fault α → Prop
  | .ok a, .ok b => a = b
  | .error f, .error g => f.kind = g.kind
  | _, _ => False

theorem Alike.refl {α : Type} (r : Except Fault α) : Alike r r := by
  cases r with
  | ok a => exact rfl
  | error f => exact rfl

namespace Value

/-- One value can stand for the other in all arithmetic: as either operand, in a register that is
counted up or down, and as the duration of a sleep, given by any operands that stand for them. -/
structure Interchanges (a b : Value) : Prop where
  left : ∀ (op : Arithmetic) (v : Value), Alike (op.apply a v) (op.apply b v)
  right : ∀ (op : Arithmetic) (v : Value), Alike (op.apply v a) (op.apply v b)
  count : ∀ (c : Count) (register : String), Alike (c.apply register a) (c.apply register b)
  sleep : ∀ (m : Machine) (line : Line) (source other : String),
    (Operand.resolve source m.bank).result = .ok a → (Operand.resolve other m.bank).result = .ok b →
      Alike (m.perform line (.sleep source)).result (m.perform line (.sleep other)).result

/-- What a sleep comes to. -/
theorem sleep_result {m : Machine} {line : Line} {source : String} {v : Value}
    (read : (Operand.resolve source m.bank).result = .ok v) :
    (m.perform line (.sleep source)).result =
      match v.toNumber? with
      | none => .error (.notDuration v.text)
      | some x => .ok (m, [.sleep (Machine.milliseconds x)]) := by
  simp only [Machine.perform, bind, read]
  cases v.toNumber? with
  | none => rfl
  | some x => rfl

/-- Values that count as the same number, or both as none, can stand for each other. -/
theorem Interchanges.of_toNumber? {a b : Value} (same : a.toNumber? = b.toNumber?) :
    Interchanges a b where
  left op v := by
    unfold Arithmetic.apply
    rw [same]
    split
    · exact Alike.refl _
    · exact rfl
  right op v := by
    unfold Arithmetic.apply
    rw [same]
    split
    · exact Alike.refl _
    · exact rfl
  count c register := by
    unfold Count.apply
    rw [same]
    exact Alike.refl _
  sleep m line source other read readOther := by
    rw [sleep_result read, sleep_result readOther, same]
    split
    · exact rfl
    · exact rfl

/-- A value that counts as a number cannot stand for one that does not. -/
theorem Interchanges.counts {a b : Value} (alike : Interchanges a b)
    (refused : a.toNumber? = none) : b.toNumber? = none := by
  cases counts : b.toNumber? with
  | none => rfl
  | some x =>
    have up := alike.count .up ""
    simp only [Count.apply, refused, counts] at up
    exact up.elim

/-- The string of a literal always counts as the double that the literal means. -/
theorem toNumber?_text {s : String} {l : Number.Literal}
    (reads : Number.Literal.read? s.toList = some l) : (string s).toNumber? = some l.toDouble := by
  rw [toNumber?, Number.read?, reads, Option.map_some]

/-- The double of a literal counts as a number as long as it is finite. -/
theorem toNumber?_toDouble (l : Number.Literal) :
    (number l.toDouble).toNumber? =
      if l.decimal.value < Number.ceiling then some l.toDouble else none := by
  have finite := Number.isFinite_toDouble l.decimal l.negative
  simp only [toNumber?, Number.Literal.toDouble, finite]

/-- A literal that is too large for a finite double means an infinity. -/
theorem toDouble_overflow {l : Number.Literal} (large : Number.ceiling ≤ l.decimal.value) :
    l.toDouble = Number.ofMagnitude l.negative Number.infinity := by
  have top : ¬ l.decimal.magnitude < Number.infinity := by
    rw [l.decimal.magnitude_lt_iff]
    exact not_lt_of_ge large
  have infinite : l.decimal.magnitude = Number.infinity :=
    le_antisymm l.decimal.magnitude_le (not_lt.mp top)
  rw [Number.Literal.toDouble, Number.Decimal.toDouble, infinite]

/-- The number of a literal and the string of its text can stand for each other if and only if the
literal rounds to a finite double. If it does not, the number counts as none and the string as an
infinity. -/
theorem literal_interchanges {s : String} {l : Number.Literal}
    (reads : Number.Literal.read? s.toList = some l) :
    (Interchanges (number l.toDouble) (string s) ↔ l.decimal.value < Number.ceiling) ∧
      (Number.ceiling ≤ l.decimal.value →
        (number l.toDouble).toNumber? = none ∧
          (string s).toNumber? = some (Number.ofMagnitude l.negative Number.infinity)) := by
  have text := toNumber?_text reads
  have value := toNumber?_toDouble l
  refine ⟨⟨?_, ?_⟩, ?_⟩
  · intro alike
    by_contra large
    rw [if_neg large] at value
    have refused := alike.counts value
    simp [text] at refused
  · intro small
    apply Interchanges.of_toNumber?
    rw [value, if_pos small, text]
  · intro large
    rw [if_neg (not_lt_of_ge large)] at value
    exact ⟨value, by rw [text, toDouble_overflow large]⟩

/-- The greatest literal of 17 digits that still rounds to a finite double. -/
theorem literal_interchanges_greatest :
    let s := "1.7976931348623158e308"
    let l : Number.Literal := ⟨false, ⟨17976931348623158, 292⟩⟩
    Number.Literal.read? s.toList = some l ∧ Interchanges (number l.toDouble) (string s) := by
  have reads : Number.Literal.read? "1.7976931348623158e308".toList =
      some ⟨false, ⟨17976931348623158, 292⟩⟩ := by decide
  have small : 17976931348623158 * 10 ^ 292 < Number.ceiling := by decide +kernel
  refine ⟨reads, (literal_interchanges reads).1.mpr ?_⟩
  show (17976931348623158 : ℚ) * 10 ^ (292 : Int) < Number.ceiling
  exact_mod_cast small

/-- A literal that is too large for a finite double cannot be added as a number, and can be as a
string. -/
theorem overflow_parts :
    let x := Number.Literal.toDouble ⟨false, ⟨1, 999⟩⟩
    Number.isLiteral "1e999" = true ∧ Number.read? "1e999" = some x ∧
      ¬ Alike (Arithmetic.add.apply (number x) (number 1))
        (Arithmetic.add.apply (string "1e999") (number 1)) := by
  have reads : Number.Literal.read? "1e999".toList = some ⟨false, ⟨1, 999⟩⟩ := by decide
  have large : Number.ceiling ≤ 1 * 10 ^ 999 := by decide +kernel
  have refused := toNumber?_toDouble ⟨false, ⟨1, 999⟩⟩
  have unit : (number 1).toNumber? = some 1 := rfl
  rw [if_neg] at refused
  · refine ⟨by rw [Number.isLiteral, reads, Option.isSome_some],
      by rw [Number.read?, reads, Option.map_some], ?_⟩
    simp only [Arithmetic.apply, refused, toNumber?_text reads, unit]
    exact id
  · show ¬ ((1 : Nat) : ℚ) * 10 ^ (999 : Int) < Number.ceiling
    exact not_lt_of_ge (by exact_mod_cast large)

end Value

end RegisterMachine
