import RegisterMachine.Number.Shortest
import RegisterMachine.Proofs.Rounding

/-!
Decimals that read back. Which double a decimal reads as depends on its value alone, however the value
is divided between digits and exponent (`Decimal.magnitude_congr`), and the decimal chosen for a finite
double reads as that double (`magnitude_shortest`).
-/

namespace RegisterMachine.Number

theorem divHalfEven_cancel (n d : Nat) {k : Nat} (pos : 0 < k) :
    divHalfEven (n * k) (d * k) = divHalfEven n d := by
  have below : 2 * (n % d * k) < d * k ↔ 2 * (n % d) < d := by
    rw [← Nat.mul_assoc, Nat.mul_lt_mul_right pos]
  have above : d * k < 2 * (n % d * k) ↔ d < 2 * (n % d) := by
    rw [← Nat.mul_assoc, Nat.mul_lt_mul_right pos]
  simp only [divHalfEven, Nat.mul_div_mul_right _ _ pos, Nat.mul_mod_mul_right, below, above]

theorem rounded_cancel (s d : Nat) {k : Nat} (pos : 0 < k) : rounded (s * k) (d * k) = rounded s d := by
  unfold rounded
  rw [Nat.mul_div_mul_right _ _ pos, Nat.mul_right_comm, divHalfEven_cancel _ _ pos]

theorem nearest_cancel (n d : Nat) {k : Nat} (pos : 0 < k) : nearest (n * k) (d * k) = nearest n d := by
  rw [nearest_eq, nearest_eq, Nat.mul_right_comm, rounded_cancel _ _ pos]

/-- Equal fractions have the same nearest double. -/
theorem nearest_congr {n d m e : Nat} (pos : 0 < d) (pos' : 0 < e) (same : n * e = m * d) :
    nearest n d = nearest m e := by
  rw [← nearest_cancel n d pos', ← nearest_cancel m e pos, same, Nat.mul_comm e d]

theorem divHalfEven_small {n d : Nat} (small : 2 * n < d) : divHalfEven n d = 0 := by
  unfold divHalfEven
  simp only
  rw [Nat.div_eq_of_lt (by omega), Nat.mod_eq_of_lt (by omega), if_pos small]

/-- Less than half a quantum is rounded to zero. -/
theorem nearest_small {n d : Nat} (small : 2 * (n * 2 ^ places) < d) : nearest n d = 0 := by
  have none : n * 2 ^ places / d = 0 := Nat.div_eq_of_lt (by omega)
  have length : Nat.log2 0 - 52 = 0 := by decide
  rw [nearest_eq, rounded, none, length, Nat.pow_zero, Nat.mul_one, divHalfEven_small small,
    Nat.zero_mul, Nat.add_zero]
  exact Nat.min_eq_left (Nat.zero_le _)

theorem nearest_zero {d : Nat} (pos : 0 < d) : nearest 0 d = 0 := by
  apply nearest_small
  rwa [Nat.zero_mul, Nat.mul_zero]

/-- A decimal as a fraction of whole numbers. -/
def Decimal.fraction (d : Decimal) : Nat × Nat :=
  match d.exponent with
  | .ofNat e => (d.digits * 10 ^ e, 1)
  | .negSucc e => (d.digits, 10 ^ (e + 1))

theorem Decimal.fraction_negSucc (digits e : Nat) :
    fraction ⟨digits, .negSucc e⟩ = (digits, 10 ^ (e + 1)) := rfl

theorem Decimal.fraction_pos (d : Decimal) : 0 < d.fraction.2 := by
  unfold fraction
  split
  · exact Nat.one_pos
  · exact Nat.pow_pos (by decide)

theorem Decimal.value_eq (d : Decimal) : d.value = d.fraction.1 / d.fraction.2 := by
  obtain ⟨digits, exponent⟩ := d
  cases exponent with
  | ofNat e => simp [value, fraction]
  | negSucc e => simp [value, fraction, zpow_negSucc, div_eq_mul_inv]

theorem nearest_large {n d : Nat} (pos : 0 < d) (large : ceiling * d ≤ n) : nearest n d = infinity := by
  have reached := mt (nearest_lt_iff n pos).mp (Nat.not_lt.mpr large)
  have most := nearest_le n d
  omega

/-- Digits so far after the point that each of them and `m` more zeros fit before them. -/
theorem far_below {digits m e : Nat} (quantum : 2 * 2 ^ places ≤ 10 ^ m)
    (far : Nat.log2 digits + 1 + m ≤ e) : 2 * (digits * 2 ^ places) < 10 ^ e := by
  have length : digits < 10 ^ (Nat.log2 digits + 1) :=
    lt_of_lt_of_le Nat.lt_log2_self (Nat.pow_le_pow_left (by decide) _)
  have unit : 0 < 2 * 2 ^ places := Nat.mul_pos (by decide) (Nat.two_pow_pos _)
  calc 2 * (digits * 2 ^ places) = digits * (2 * 2 ^ places) := by ring
    _ < 10 ^ (Nat.log2 digits + 1) * (2 * 2 ^ places) := Nat.mul_lt_mul_of_pos_right length unit
    _ ≤ 10 ^ (Nat.log2 digits + 1) * 10 ^ m := Nat.mul_le_mul_left _ quantum
    _ = 10 ^ (Nat.log2 digits + 1 + m) := (Nat.pow_add 10 _ _).symm
    _ ≤ 10 ^ e := Nat.pow_le_pow_right (by decide) far

theorem Decimal.nearest_large {d : Decimal} (some : d.digits ≠ 0) (large : 400 < d.exponent) :
    nearest d.fraction.1 d.fraction.2 = infinity := by
  have pos := d.fraction_pos
  have bound : (ceiling : ℚ) ≤ d.value := Decimal.large some large
  rw [d.value_eq, le_div_iff₀ (by exact_mod_cast pos)] at bound
  exact Number.nearest_large pos (by exact_mod_cast bound)

theorem Decimal.nearest_small {d : Decimal} (small : d.exponent < -(Nat.log2 d.digits + 400 : Int)) :
    nearest d.fraction.1 d.fraction.2 = 0 := by
  obtain ⟨digits, exponent⟩ := d
  simp only at small
  cases exponent with
  | ofNat e =>
    rw [Int.ofNat_eq_natCast] at small
    omega
  | negSucc e =>
    have far : Nat.log2 digits + 1 + 400 ≤ e + 1 := by omega
    exact Number.nearest_small (far_below (by decide +kernel) far)

/-- Where no power of ten is computed, the nearest double is the one that is given instead. -/
theorem Decimal.magnitude_eq (d : Decimal) :
    d.magnitude = nearest d.fraction.1 d.fraction.2 := by
  unfold magnitude
  split
  · rename_i none
    have zero : d.fraction.1 = 0 := by
      unfold fraction
      split <;> simp [none]
    rw [zero]
    exact (nearest_zero d.fraction_pos).symm
  · rename_i some
    split
    · rename_i large
      exact (nearest_large some large).symm
    · split
      · rename_i small
        exact (nearest_small small).symm
      · obtain ⟨digits, exponent⟩ := d
        cases exponent with
        | ofNat e => rfl
        | negSucc e => rfl

/-- Decimals of one value read as one double. -/
theorem Decimal.magnitude_congr {a b : Decimal} (same : a.value = b.value) :
    a.magnitude = b.magnitude := by
  have pos := a.fraction_pos
  have pos' := b.fraction_pos
  have filled : (a.fraction.2 : ℚ) ≠ 0 := by exact_mod_cast pos.ne'
  have filled' : (b.fraction.2 : ℚ) ≠ 0 := by exact_mod_cast pos'.ne'
  rw [a.value_eq, b.value_eq, div_eq_div_iff filled filled'] at same
  rw [a.magnitude_eq, b.magnitude_eq]
  exact nearest_congr pos pos' (by exact_mod_cast same)

/-- A double is the nearest one to the number of quanta that it is. -/
theorem rounded_quanta (bits : Nat) {d : Nat} (pos : 0 < d) : rounded (quanta bits * d) d = bits := by
  by_cases small : bits < 2 ^ 52
  · have whole : quanta bits = bits := by
      unfold quanta
      simp only [Nat.pow_eq]
      rw [if_pos (Nat.div_eq_of_lt small), Nat.mod_eq_of_lt small]
    have kept : Nat.log2 bits - 52 = 0 := by
      rcases Nat.eq_zero_or_pos bits with rfl | some
      · decide
      · have := (Nat.log2_lt (by omega)).mpr small
        omega
    rw [whole, rounded, Nat.mul_div_cancel _ pos, kept, Nat.pow_zero, Nat.mul_one, divHalfEven_mul _ pos,
      Nat.zero_mul, Nat.add_zero]
  · obtain ⟨q, k, least, most, rfl⟩ : ∃ q k, 2 ^ 52 ≤ q ∧ q < 2 ^ 53 ∧ bits = q + k * 2 ^ 52 :=
      ⟨bits % 2 ^ 52 + 2 ^ 52, bits / 2 ^ 52 - 1, by omega, by omega, by omega⟩
    rw [quanta_eq k least most, rounded_exact pos least most]

theorem magnitude_exactDecimal {bits : Nat} (finite : bits < infinity) :
    (exactDecimal bits).magnitude = bits := by
  have parts : Nat.pow 5 1074 * 2 ^ places = 10 ^ (1073 + 1) := by decide +kernel
  have pos : 0 < 10 ^ (1073 + 1) := by decide +kernel
  rw [exactDecimal, Decimal.magnitude_eq, show (-1074 : Int) = .negSucc 1073 from rfl,
    Decimal.fraction_negSucc]
  generalize 10 ^ (1073 + 1) = unit at parts pos
  rw [nearest_eq, Nat.mul_assoc, parts, rounded_quanta bits pos]
  exact Nat.min_eq_left finite.le

theorem Tie.pick_cases (low : Nat) (tie : Tie) : tie.pick low = low ∨ tie.pick low = low + 1 := by
  cases tie with
  | up => exact .inr rfl
  | even =>
    change low + low % 2 = low ∨ low + low % 2 = low + 1
    omega

/-- Only what reads back is taken. -/
theorem magnitude_neighbour {tie : Tie} {bits digits : Nat} {place : Int}
    (found : neighbour? tie bits place = some digits) : (Decimal.mk digits place).magnitude = bits := by
  unfold neighbour? at found
  simp only at found
  generalize inUnits (quanta bits) (Nat.pow 2 1074) place = units at found
  generalize units.1 / units.2 = low at found
  split at found
  · rename_i below above
    have either : digits = low ∨ digits = low + 1 := by
      have pick := tie.pick_cases low
      split at found
      · exact .inl (Option.some.inj found).symm
      · split at found
        · exact .inr (Option.some.inj found).symm
        · rwa [Option.some.inj found] at pick
    rcases either with rfl | rfl
    · exact LawfulBEq.eq_of_beq below
    · exact LawfulBEq.eq_of_beq above
  · rename_i below _
    cases found
    exact LawfulBEq.eq_of_beq below
  · rename_i above
    cases found
    exact LawfulBEq.eq_of_beq above
  · cases found

theorem magnitude_coarsest (tie : Tie) {bits : Nat} (finite : bits < infinity) (grids : Nat)
    (place : Int) :
    (coarsest tie bits grids place).magnitude = bits := by
  induction grids generalizing place with
  | zero => exact magnitude_exactDecimal finite
  | succ grids ih =>
    unfold coarsest
    split
    · rename_i digits found
      exact magnitude_neighbour found
    · exact ih (place - 1)

/-- The decimal that is chosen for a finite double reads as that double. -/
theorem magnitude_shortest (tie : Tie) {bits : Nat} (finite : bits < infinity) :
    (shortest tie bits).magnitude = bits := by
  unfold shortest
  split
  · rename_i zero
    exact zero.symm
  · exact magnitude_coarsest tie finite _ _

end RegisterMachine.Number
