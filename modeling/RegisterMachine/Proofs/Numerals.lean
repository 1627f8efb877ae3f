import RegisterMachine.Number.Layout
import RegisterMachine.Operand
import RegisterMachine.Proofs.Literals
import RegisterMachine.Proofs.Shortest
import RegisterMachine.Text.Blank

/-!
The texts of numbers. A finite double is written as a literal of the decimal chosen for it, whichever
side of the digits the point is on and with or without an exponent (`unsigned_writes`), so the text
reads back as the double (`read?_text`).
-/

namespace RegisterMachine.Number

open Literal

/-- Zeros before digits do not count. -/
theorem ofDigits_zeros_append (n : Nat) (cs : List Char) :
    ofDigits (List.replicate n '0' ++ cs) = ofDigits cs := by
  rw [ofDigits_eq, ofDigits_eq, Nat.ofDigitChars_append, Nat.ofDigitChars_replicate_zero, Nat.mul_zero]

/-- Each zero after digits counts ten times. -/
theorem ofDigits_append_zeros (cs : List Char) (n : Nat) :
    ofDigits (cs ++ List.replicate n '0') = ofDigits cs * 10 ^ n := by
  rw [ofDigits_eq, ofDigits_eq, Nat.ofDigitChars_append, Nat.ofDigitChars_replicate_zero, Nat.mul_comm]

theorem digits_zeros (n : Nat) : Digits (List.replicate n '0') := by
  intro c member
  rw [List.eq_of_mem_replicate member]
  rfl

theorem Digits.append {cs ds : List Char} (first : Digits cs) (second : Digits ds) :
    Digits (cs ++ ds) := by
  intro c member
  rcases List.mem_append.mp member with left | right
  · exact first c left
  · exact second c right

theorem exists_zeros (cs : List Char) :
    ∃ n, (cs.reverse.dropWhile (· == '0')).reverse ++ List.replicate n '0' = cs := by
  refine ⟨(cs.rtakeWhile (· == '0')).length, ?_⟩
  have zeros : ∀ c ∈ cs.rtakeWhile (· == '0'), c = '0' := by
    intro c member
    have same : (c == '0') = true := List.mem_rtakeWhile_imp (p := (· == '0')) member
    exact LawfulBEq.eq_of_beq same
  rw [← List.eq_replicate_of_mem zeros]
  exact List.rdropWhile_append_rtakeWhile

/-- The digits that are written, with the point where it is put among them, have the value of the
decimal. -/
theorem significant_value (d : Decimal) :
    (significant d).1 ≠ [] ∧ Digits (significant d).1 ∧
      d.value = ofDigits (significant d).1 * 10 ^ ((significant d).2 - (significant d).1.length) := by
  obtain ⟨n, text⟩ := exists_zeros (Nat.toDigits 10 d.digits)
  have read := ofDigits_toDigits d.digits
  have numeric := digits_toDigits d.digits
  unfold significant
  simp only
  split
  · rename_i none
    rw [none, List.nil_append] at text
    rw [← text, ← List.append_nil (List.replicate n '0'), ofDigits_zeros_append] at read
    refine ⟨List.cons_ne_nil _ _, digits_zeros 1, ?_⟩
    rw [Decimal.value, ← read]
    simp [ofDigits, digitValue]
  · rename_i filled
    generalize ((Nat.toDigits 10 d.digits).reverse.dropWhile (· == '0')).reverse = kept at text filled
    rw [← text] at numeric read ⊢
    rw [ofDigits_append_zeros] at read
    refine ⟨filled, fun c member => numeric c (List.mem_append_left _ member), ?_⟩
    rw [Decimal.value, ← read, Nat.cast_mul, Nat.cast_pow, Nat.cast_ofNat, mul_assoc, ← zpow_natCast,
      ← zpow_add₀ (by norm_num), List.length_append, List.length_replicate]
    congr 2
    push_cast
    ring

/-- A text that, after any sign, writes a literal of the given value. -/
def Writes (cs : List Char) (v : ℚ) : Prop :=
  ∀ (sign : List Char) (negative : Bool), Sign sign negative →
    ∃ d : Decimal, Written (sign ++ cs) ⟨negative, d⟩ ∧ d.value = v

theorem Writes.parts {mantissa whole fraction exponent : List Char} {n : Int} {v : ℚ}
    (digits : Mantissa mantissa whole fraction) (scaled : Exponent exponent n)
    (value : (ofDigits (whole ++ fraction) : ℚ) * 10 ^ (n - fraction.length) = v) :
    Writes (mantissa ++ exponent) v :=
  fun _ _ signed => ⟨_, .parts signed digits scaled, value⟩

theorem Writes.positional {mantissa whole fraction : List Char} {v : ℚ}
    (digits : Mantissa mantissa whole fraction)
    (value : (ofDigits (whole ++ fraction) : ℚ) * 10 ^ (-fraction.length : Int) = v) :
    Writes mantissa v := by
  have written := Writes.parts digits .none (v := v) (by rwa [Int.zero_sub])
  rwa [List.append_nil] at written

theorem positional_before (digits : List Char) {point : Int} (before : point ≤ 0) :
    (positional "" digits point).toList =
      ['0'] ++ '.' :: (List.replicate (-point).toNat '0' ++ digits) := by
  rw [Number.positional, if_pos before]
  simp

theorem positional_after {digits : List Char} {point : Int} (some : 0 < point)
    (after : digits.length ≤ point) :
    (positional "" digits point).toList =
      digits ++ List.replicate (point - digits.length).toNat '0' := by
  rw [Number.positional, if_neg (by omega), if_pos after]
  simp

theorem positional_among {digits : List Char} {point : Int} (some : 0 < point)
    (among : point < digits.length) :
    (positional "" digits point).toList = digits.take point.toNat ++ '.' :: digits.drop point.toNat := by
  rw [Number.positional, if_neg (by omega), if_neg (by omega)]
  simp

theorem positional_writes {digits : List Char} (filled : digits ≠ []) (numeric : Digits digits)
    (point : Int) :
    Writes (positional "" digits point).toList (ofDigits digits * 10 ^ (point - digits.length)) := by
  by_cases before : point ≤ 0
  · rw [positional_before digits before]
    refine Writes.positional (.pointed (List.cons_ne_nil _ _) (digits_zeros 1)
      ((digits_zeros _).append numeric)) ?_
    have zeros := ofDigits_zeros_append (1 + (-point).toNat) digits
    rw [List.replicate_add, List.append_assoc] at zeros
    rw [show ['0'] = List.replicate 1 '0' from rfl, zeros, List.length_append, List.length_replicate]
    congr 2
    omega
  · by_cases after : digits.length ≤ point
    · rw [positional_after (by omega) after]
      refine Writes.positional (.whole (by simp [filled]) (numeric.append (digits_zeros _))) ?_
      rw [List.append_nil, ofDigits_append_zeros, List.length_nil, Nat.cast_mul, Nat.cast_pow,
        Nat.cast_ofNat, Int.natCast_zero, neg_zero, zpow_zero, mul_one, ← zpow_natCast,
        Int.toNat_of_nonneg (by omega)]
    · rw [positional_among (by omega) (by omega)]
      have length := List.length_pos_iff.mpr filled
      have some : digits.take point.toNat ≠ [] := by
        apply List.ne_nil_of_length_pos
        rw [List.length_take]
        omega
      refine Writes.positional (.pointed some (fun c member => numeric c (List.mem_of_mem_take member))
        (fun c member => numeric c (List.mem_of_mem_drop member))) ?_
      rw [List.take_append_drop, List.length_drop]
      congr 2
      omega

/-- The exponent is written with its sign, whichever it is. -/
theorem exponent_writes (n : Int) :
    Exponent ((if n < 0 then "e-" else "e+").toList ++ Nat.toDigits 10 n.natAbs) n := by
  have filled : Nat.toDigits 10 n.natAbs ≠ [] := Nat.toDigits_ne_nil
  have numeric := digits_toDigits n.natAbs
  have read := ofDigits_toDigits n.natAbs
  by_cases low : n < 0
  · have written := Exponent.marked (.inl rfl) .minus filled numeric
    rw [read, if_pos rfl, Int.ofNat_natAbs_of_nonpos (by omega), neg_neg] at written
    rwa [if_pos low]
  · have written := Exponent.marked (.inl rfl) .plus filled numeric
    rw [read, if_neg (by decide), Int.natAbs_of_nonneg (by omega)] at written
    rwa [if_neg low]

theorem scientific_writes {digits : List Char} (filled : digits ≠ []) (numeric : Digits digits)
    (exponent : Int) :
    Writes (scientific digits exponent).toList
      (ofDigits digits * 10 ^ (exponent + 1 - digits.length)) := by
  have scaled := exponent_writes exponent
  unfold scientific
  simp only [String.toList_append, String.toList_ofList, List.append_assoc]
  cases digits with
  | nil => exact absurd rfl filled
  | cons d rest =>
    cases rest with
    | nil =>
      rw [String.toList_ofList]
      refine Writes.parts (.whole filled numeric) scaled ?_
      simp
    | cons e rest =>
      rw [String.toList_ofList]
      have first : Digits [d] := fun c member => numeric c (List.mem_append_left (e :: rest) member)
      have others : Digits (e :: rest) := fun c member => numeric c (List.mem_cons_of_mem d member)
      refine Writes.parts (.pointed (List.cons_ne_nil d []) first others) scaled ?_
      rw [List.singleton_append, List.length_cons, List.length_cons, List.length_cons]
      congr 2
      omega

/-- However a magnitude is laid out, its text writes the decimal that was chosen for it. -/
theorem unsigned_writes (bits : Nat) :
    Writes (plain.unsigned bits).toList (shortest .up bits).value := by
  obtain ⟨filled, numeric, value⟩ := significant_value (shortest .up bits)
  rw [value]
  unfold Layout.unsigned
  simp only
  split
  · exact positional_writes filled numeric _
  · have written := scientific_writes filled numeric ((significant (shortest .up bits)).2 - 1)
    rwa [Int.sub_add_cancel] at written

theorem Layout.text_writes {x : Float} :
    ∃ d : Decimal, Written (plain.text x).toList ⟨isNegative x, d⟩ ∧
      d.value = (shortest .up (magnitude x)).value := by
  have writes := unsigned_writes (magnitude x)
  unfold Layout.text
  simp only
  cases isNegative x with
  | false => exact writes [] false .none
  | true =>
    rw [if_pos rfl, String.toList_append]
    exact writes ['-'] true .minus

theorem text_finite {x : Float} (finite : x.isFinite = true) :
    text x = if x == 0 then "0" else plain.text x := by
  obtain ⟨number, bounded⟩ := not_special finite
  rw [text, number, bounded]
  rfl

/-- A finite double is read back from its text, but that zero loses its sign. -/
theorem read?_text {x : Float} (finite : x.isFinite = true) :
    read? (text x) = some (if x == 0 then 0 else x) := by
  rw [text_finite finite]
  by_cases zero : (x == 0) = true
  · rw [if_pos zero, if_pos zero]
    decide +kernel
  · obtain ⟨d, written, value⟩ := Layout.text_writes (x := x)
    have bits : d.magnitude = magnitude x := by
      rw [Decimal.magnitude_congr value, magnitude_shortest _ ((isFinite_iff x).mp finite)]
    rw [if_neg zero, if_neg zero, read?, read?_eq_some_iff.mpr written, Option.map_some, Literal.toDouble,
      Decimal.toDouble, bits, ofMagnitude_magnitude]

/-- The characters that number texts are made of. -/
def isNumeral (c : Char) : Bool := c.isAlphanum || c == '+' || c == '-' || c == '.'

theorem Digits.numerals {ds : List Char} (digits : Digits ds) : ∀ c ∈ ds, isNumeral c = true := by
  intro c member
  simp [isNumeral, Char.isAlphanum, digits c member]

theorem Literal.Sign.numerals {sign : List Char} {negative : Bool} (signed : Sign sign negative) :
    ∀ c ∈ sign, isNumeral c = true := by
  cases signed with
  | none => simp
  | plus => simp [isNumeral]
  | minus => simp [isNumeral]

theorem Literal.Mantissa.numerals {mantissa whole fraction : List Char}
    (digits : Mantissa mantissa whole fraction) : ∀ c ∈ mantissa, isNumeral c = true := by
  have point : isNumeral '.' = true := rfl
  cases digits with
  | whole filled digits => exact digits.numerals
  | pointed filled digits fraction =>
    rw [List.forall_mem_append, List.forall_mem_cons]
    exact ⟨digits.numerals, point, fraction.numerals⟩
  | fraction filled fraction =>
    rw [List.forall_mem_cons]
    exact ⟨point, fraction.numerals⟩

theorem Literal.Exponent.numerals {exponent : List Char} {n : Int} (scaled : Exponent exponent n) :
    ∀ c ∈ exponent, isNumeral c = true := by
  cases scaled with
  | none => simp
  | marked marks signed filled digits =>
    rw [List.forall_mem_append, List.forall_mem_cons]
    refine ⟨⟨?_, signed.numerals⟩, digits.numerals⟩
    rcases marks with rfl | rfl
    · rfl
    · rfl

theorem Literal.Written.numerals {cs : List Char} {l : Literal} (written : Written cs l) :
    ∀ c ∈ cs, isNumeral c = true := by
  obtain ⟨signed, digits, scaled⟩ := written
  rw [List.forall_mem_append, List.forall_mem_append]
  exact ⟨signed.numerals, digits.numerals, scaled.numerals⟩

/-- Nothing but letters, digits, signs and points stands in the text of any double. -/
theorem text_numerals (x : Float) : ∀ c ∈ (text x).toList, isNumeral c = true := by
  unfold text
  split
  · simp [isNumeral]
  · split
    · split
      · simp [isNumeral]
      · simp [isNumeral]
    · split
      · simp [isNumeral]
      · obtain ⟨_, written, _⟩ := Layout.text_writes (x := x)
        exact written.numerals

theorem digit_not_lower {c : Char} (digit : c.isDigit = true) : c.isLower = false := by
  have range : 48 ≤ c.toNat ∧ c.toNat ≤ 57 := by
    simpa [Char.isDigit, UInt32.le_iff_toNat_le] using digit
  have below : ¬ (97 ≤ c.toNat ∧ c.toNat ≤ 122) := by omega
  simpa [Char.isLower, UInt32.le_iff_toNat_le] using below

/-- A number literal begins with a digit, a sign or a point. -/
theorem Literal.Written.opens {cs : List Char} {l : Literal} (written : Written cs l) :
    ∃ c rest, cs = c :: rest ∧ c.isLower = false := by
  obtain ⟨signed, digits, _⟩ := written
  cases signed with
  | plus => exact ⟨_, _, rfl, rfl⟩
  | minus => exact ⟨_, _, rfl, rfl⟩
  | none =>
    cases digits with
    | fraction => exact ⟨_, _, rfl, rfl⟩
    | whole filled digits | pointed filled digits =>
      obtain ⟨d, ds, rfl⟩ := List.exists_cons_of_ne_nil filled
      exact ⟨d, _, rfl, digit_not_lower (digits d List.mem_cons_self)⟩

/-- The text of a double does not begin as `null`, `true` and `false` do. -/
theorem text_opens (x : Float) : ∃ c rest, (text x).toList = c :: rest ∧ c.isLower = false := by
  unfold text
  split
  · exact ⟨'N', _, rfl, rfl⟩
  · split
    · split
      · exact ⟨'-', _, rfl, rfl⟩
      · exact ⟨'I', _, rfl, rfl⟩
    · split
      · exact ⟨'0', _, rfl, rfl⟩
      · obtain ⟨_, written, _⟩ := Layout.text_writes (x := x)
        exact written.opens

theorem not_blank_of_isAlphanum {c : Char} (letter : c.isAlphanum = true) : Text.isBlank c = false := by
  have range : (65 ≤ c.toNat ∧ c.toNat ≤ 90 ∨ 97 ≤ c.toNat ∧ c.toNat ≤ 122) ∨
      48 ≤ c.toNat ∧ c.toNat ≤ 57 := by
    simpa [Char.isAlphanum, Char.isAlpha, Char.isUpper, Char.isLower, Char.isDigit,
      UInt32.le_iff_toNat_le] using letter
  simp [Text.isBlank]
  omega

theorem not_blank_of_isNumeral {c : Char} (numeral : isNumeral c = true) :
    Text.isBlank c = false ∧ c ≠ ';' := by
  simp only [isNumeral, Bool.or_eq_true, beq_iff_eq] at numeral
  rcases numeral with ((letter | rfl) | rfl) | rfl
  · refine ⟨not_blank_of_isAlphanum letter, ?_⟩
    rintro rfl
    cases letter
  · decide
  · decide
  · decide

end RegisterMachine.Number

namespace RegisterMachine.Operand

/-- An operand that is a number literal stands for its number. -/
theorem resolve_number {source : String} {x : Float} (reads : Number.read? source = some x)
    (bank : Bank) :
    resolve source bank = pure (.number x) := by
  have unquoted : unquote? source.toList = none := by
    unfold unquote?
    split
    · rename_i rest quoted
      rw [Number.read?, quoted] at reads
      cases reads
    · rfl
  rw [resolve, unquoted]
  simp only [reads]

/-- What is printed for a finite double is a number literal without blanks and semicolons, and as an
operand it stands for that double, or for zero without a sign if the double is a zero. -/
theorem resolve_printed {x : Float} (finite : x.isFinite = true) :
    Number.isLiteral (Number.text x) = true ∧
      (∀ c ∈ (Number.text x).toList, Text.isBlank c = false ∧ c ≠ ';') ∧
      ∀ bank, resolve (Number.text x) bank = pure (.number (if x == 0 then 0 else x)) := by
  have reads := Number.read?_text finite
  refine ⟨?_, fun c member => Number.not_blank_of_isNumeral (Number.text_numerals x c member),
    resolve_number reads⟩
  rw [← Number.isSome_read?, reads]
  rfl

/-- A large number, a small one and a negative zero. -/
theorem resolve_printed_forms :
    (Number.text (-2.5e30) = "-2.5e+30" ∧ resolve "-2.5e+30" .initial = pure (.number (-2.5e30))) ∧
      (Number.text 1.5e-8 = "1.5e-8" ∧ resolve "1.5e-8" .initial = pure (.number 1.5e-8)) ∧
      (Number.text (-0.0) = "0" ∧ resolve "0" .initial = pure (.number 0)) := by
  have large : Number.text (-2.5e30) = "-2.5e+30" := by decide +kernel
  have small : Number.text 1.5e-8 = "1.5e-8" := by decide +kernel
  have zero : Number.text (-0.0) = "0" := by decide +kernel
  have resolved := (resolve_printed (x := -2.5e30) (by decide +kernel)).2.2 .initial
  have resolved' := (resolve_printed (x := 1.5e-8) (by decide +kernel)).2.2 .initial
  have unsigned := (resolve_printed (x := -0.0) (by decide +kernel)).2.2 .initial
  rw [large, if_neg (by decide +kernel)] at resolved
  rw [small, if_neg (by decide +kernel)] at resolved'
  rw [zero, if_pos (by decide +kernel)] at unsigned
  exact ⟨⟨large, resolved⟩, ⟨small, resolved'⟩, zero, unsigned⟩

end RegisterMachine.Operand
