import RegisterMachine.Number.Literal
import Mathlib

/-!
Doubles by sign and magnitude: which magnitudes are finite (`isFinite_iff`), that a sign and a magnitude
are found again in the double made of them (`toBits_ofMagnitude`) and make it again
(`ofMagnitude_magnitude`), and that doubles are equal only if their bits are, but for the two zeros
(`eq_of_beq`).
-/

namespace RegisterMachine.Number

open Float.Model (Format)
open Float.Model.UnpackedFloat

theorem infinity_eq : infinity = 2047 * 2 ^ 52 := rfl

abbrev exponentField (b : BitVec 64) : BitVec 11 := @unpackExponent Format.binary64 b

abbrev fractionField (b : BitVec 64) : BitVec 52 := @unpackMantissa Format.binary64 b

theorem exponent_toNat (b : BitVec 64) : (exponentField b).toNat = b.toNat % 2 ^ 63 / 2 ^ 52 := by
  simp [unpackExponent]
  omega

theorem fraction_toNat (b : BitVec 64) : (fractionField b).toNat = b.toNat % 2 ^ 63 % 2 ^ 52 := by
  simp [unpackMantissa]

/-- Infinities and what is not a number have all bits of the exponent set. -/
theorem exponent_eq_iff (b : BitVec 64) : exponentField b = -1#11 ↔ infinity ≤ b.toNat % 2 ^ 63 := by
  have exponent := exponent_toNat b
  have inf := infinity_eq
  rw [← BitVec.toNat_inj]
  change (exponentField b).toNat = 2047 ↔ _
  omega

/-- Every magnitude above infinity is not a number. -/
theorem isNaNBits_iff (b : BitVec 64) :
    @isNaNBits Format.binary64 b = true ↔ infinity < b.toNat % 2 ^ 63 := by
  have fraction := fraction_toNat b
  have inf := infinity_eq
  have filled : fractionField b ≠ 0#52 ↔ (fractionField b).toNat ≠ 0 := by
    rw [ne_eq, ← BitVec.toNat_inj]
    rfl
  unfold isNaNBits
  rw [decide_eq_true_eq]
  change exponentField b = -1#11 ∧ fractionField b ≠ 0#52 ↔ _
  rw [exponent_eq_iff, filled]
  omega

theorem isFinite_iff (x : Float) : x.isFinite = true ↔ magnitude x < infinity := by
  have exponent := exponent_eq_iff x.toBits.toBitVec
  change (unpack Format.binary64 x.toBits.toBitVec).isFinite = true ↔
    x.toBits.toBitVec.toNat % 2 ^ 63 < infinity
  rw [← Nat.not_le, ← exponent]
  fun_cases unpack with
  | case1 fraction field sign s top => exact ⟨nofun, fun other => absurd top other⟩
  | case2 fraction field top => exact ⟨nofun, fun other => absurd top other⟩
  | case3 fraction field sign s other => exact ⟨fun _ => other, fun _ => rfl⟩
  | case4 fraction field e sign s other => exact ⟨fun _ => other, fun _ => rfl⟩
  | case5 fraction field e sign s other => exact ⟨fun _ => other, fun _ => rfl⟩

theorem not_special {x : Float} (finite : x.isFinite = true) : x.isNaN = false ∧ x.isInf = false := by
  change (unpack Format.binary64 x.toBits.toBitVec).isFinite = true at finite
  change (unpack Format.binary64 x.toBits.toBitVec).isNaN = false ∧
    (unpack Format.binary64 x.toBits.toBitVec).isInf = false
  generalize unpack Format.binary64 x.toBits.toBitVec = parts at finite
  cases parts with
  | notANumber => cases finite
  | infinity => cases finite
  | zero => exact ⟨rfl, rfl⟩
  | finite => exact ⟨rfl, rfl⟩

theorem toBits_ofMagnitude (negative : Bool) {bits : Nat} (bound : bits ≤ infinity) :
    (ofMagnitude negative bits).toBits.toNat = if negative then bits + 2 ^ 63 else bits := by
  have inf := infinity_eq
  unfold ofMagnitude
  have whole : (UInt64.ofNat (if negative then bits + Nat.pow 2 63 else bits)).toNat =
      if negative then bits + 2 ^ 63 else bits := by
    rw [UInt64.toNat_ofNat']
    apply Nat.mod_eq_of_lt
    change (if negative then bits + 2 ^ 63 else bits) < 2 ^ 64
    split <;> omega
  generalize UInt64.ofNat (if negative then bits + Nat.pow 2 63 else bits) = a at whole
  have number : ¬ @isNaNBits Format.binary64 a.toBitVec = true := by
    rw [isNaNBits_iff]
    change ¬ infinity < a.toNat % 2 ^ 63
    rw [whole]
    split <;> omega
  have packed : (Float.ofBits a).toBits = a := by
    change UInt64.ofBitVec (pack Format.binary64 (unpack Format.binary64 a.toBitVec)) = a
    rw [pack_unpack, if_neg number]
  rw [packed, whole]

theorem magnitude_ofMagnitude (negative : Bool) {bits : Nat} (bound : bits ≤ infinity) :
    magnitude (ofMagnitude negative bits) = bits := by
  have inf := infinity_eq
  change (ofMagnitude negative bits).toBits.toNat % 2 ^ 63 = bits
  rw [toBits_ofMagnitude negative bound]
  split <;> omega

/-- A double is made of its own sign and magnitude. -/
theorem ofMagnitude_magnitude (x : Float) : ofMagnitude (isNegative x) (magnitude x) = x := by
  have bound := x.toBits.toNat_lt
  have whole : (if isNegative x then magnitude x + Nat.pow 2 63 else magnitude x) = x.toBits.toNat := by
    simp only [isNegative, magnitude, Nat.pow_eq, decide_eq_true_eq]
    split
    · omega
    · omega
  rw [ofMagnitude, whole, UInt64.ofNat_toNat, Float.ofBits_toBits]

theorem magnitude_nan : infinity < magnitude Float.nan := by decide +kernel

theorem beq_self {x : Float} (bound : magnitude x ≤ infinity) : (x == x) = true := by
  rw [Float.beq_self_iff]
  rintro rfl
  exact absurd magnitude_nan (Nat.not_lt.mpr bound)

/-- Equal doubles have equal bits, unless both are zero. -/
theorem eq_of_beq {x y : Float} (same : (x == y) = true) :
    x.toBits = y.toBits ∨ (magnitude x = 0 ∧ magnitude y = 0) := by
  have zero : magnitude 0 = 0 := by decide +kernel
  have negativeZero : magnitude (-0) = 0 := by decide +kernel
  rcases (Float.beq_iff_ne_nan_and_eq.mp same).2.2 with rfl | ⟨rfl, rfl⟩ | ⟨rfl, rfl⟩
  · exact .inl rfl
  · exact .inr ⟨zero, negativeZero⟩
  · exact .inr ⟨negativeZero, zero⟩

end RegisterMachine.Number
