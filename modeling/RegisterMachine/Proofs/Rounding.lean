import RegisterMachine.Proofs.Doubles

/-!
Rounding to doubles. A quotient has a finite nearest double exactly below `ceiling`
(`nearest_lt_iff`), and so has a decimal (`isFinite_toDouble`). Whole numbers up to `2 ^ 53` are doubles
themselves, so the doubles of any two of them differ (`ofInt_injective`).
-/

namespace RegisterMachine.Number

theorem divHalfEven_bounds (n d : Nat) : n / d ≤ divHalfEven n d ∧ divHalfEven n d ≤ n / d + 1 := by
  unfold divHalfEven
  simp only
  split
  · omega
  · split
    · omega
    · omega

theorem divHalfEven_mul (q : Nat) {d : Nat} (pos : 0 < d) : divHalfEven (q * d) d = q := by
  unfold divHalfEven
  simp only
  rw [Nat.mul_mod_left, Nat.mul_div_cancel _ pos, if_pos (by omega)]

/-- An even number is reached from half a unit below it on. -/
theorem le_divHalfEven_iff {t : Nat} (even : t % 2 = 0) (some : 0 < t) {n d : Nat} (pos : 0 < d) :
    t ≤ divHalfEven n d ↔ (2 * t - 1) * d ≤ 2 * n := by
  obtain ⟨lower, upper⟩ := divHalfEven_bounds n d
  have whole := Nat.div_add_mod n d
  have rest := Nat.mod_lt n pos
  rcases Nat.lt_trichotomy (n / d + 1) t with below | next | above
  · have : (2 * (n / d) + 3) * d ≤ (2 * t - 1) * d := Nat.mul_le_mul_right d (by omega)
    have : (2 * (n / d) + 3) * d = 2 * (d * (n / d)) + 3 * d := by ring
    constructor
    · omega
    · omega
  · have odd : n / d % 2 = 1 := by omega
    have : (2 * t - 1) * d = 2 * (d * (n / d)) + d := by
      rw [show 2 * t - 1 = 2 * (n / d) + 1 by omega]
      ring
    unfold divHalfEven
    simp only
    split
    · omega
    · split
      · omega
      · omega
  · have : (2 * t - 1) * d ≤ (2 * (n / d)) * d := Nat.mul_le_mul_right d (by omega)
    have : (2 * (n / d)) * d = 2 * (d * (n / d)) := by ring
    constructor
    · omega
    · omega

/-- The bits of a number of quanta `s / d`, rounded to 53 bits. -/
def rounded (s d : Nat) : Nat :=
  divHalfEven s (d * 2 ^ (Nat.log2 (s / d) - 52)) + (Nat.log2 (s / d) - 52) * 2 ^ 52

/-- How many binary places a quantum stands after the point. -/
def places : Nat := 1074

theorem nearest_eq (n d : Nat) : nearest n d = min (rounded (n * 2 ^ places) d) infinity := by
  have quantum : 2 ^ places = Nat.pow 2 1074 := by decide +kernel
  rw [quantum]
  rfl

/-- The quotient in quanta, and how many of its bits are dropped. -/
theorem quotient_bounds {s d k : Nat} (pos : 0 < d) (dropped : Nat.log2 (s / d) - 52 = k) :
    s < 2 ^ (53 + k) * d ∧ (0 < k → 2 ^ (52 + k) * d ≤ s) := by
  constructor
  · rw [← Nat.div_lt_iff_lt_mul pos]
    calc s / d < 2 ^ (Nat.log2 (s / d) + 1) := Nat.lt_log2_self
      _ ≤ 2 ^ (53 + k) := Nat.pow_le_pow_right (by decide) (by omega)
  · intro some
    rw [← Nat.le_div_iff_mul_le pos]
    calc 2 ^ (52 + k) = 2 ^ Nat.log2 (s / d) := by
          congr 1
          omega
      _ ≤ s / d := by
          apply Nat.log2_self_le
          intro none
          rw [none] at dropped
          change 0 - 52 = k at dropped
          omega

theorem rounded_bounds {s d k : Nat} (pos : 0 < d) (dropped : Nat.log2 (s / d) - 52 = k) :
    divHalfEven s (d * 2 ^ k) ≤ 2 ^ 53 ∧ (0 < k → 2 ^ 52 ≤ divHalfEven s (d * 2 ^ k)) := by
  obtain ⟨upper, lower⟩ := quotient_bounds pos dropped
  obtain ⟨floor, next⟩ := divHalfEven_bounds s (d * 2 ^ k)
  have unit : 0 < d * 2 ^ k := Nat.mul_pos pos (Nat.two_pow_pos k)
  constructor
  · have : s / (d * 2 ^ k) < 2 ^ 53 := by
      rw [Nat.div_lt_iff_lt_mul unit]
      calc s < 2 ^ (53 + k) * d := upper
        _ = 2 ^ 53 * (d * 2 ^ k) := by ring
    omega
  · intro some
    refine le_trans ?_ floor
    rw [Nat.le_div_iff_mul_le unit]
    calc 2 ^ 52 * (d * 2 ^ k) = 2 ^ (52 + k) * d := by ring
      _ ≤ s := lower some

/-- The doubles with an exponent above `top` begin half a unit below the first of them. -/
theorem le_rounded_iff (s : Nat) {d : Nat} (pos : 0 < d) {top : Nat} (some : 0 < top) :
    (top + 2) * 2 ^ 52 ≤ rounded s d ↔ (2 ^ 54 - 1) * (d * 2 ^ top) ≤ 2 * s := by
  unfold rounded
  generalize dropped : Nat.log2 (s / d) - 52 = k
  obtain ⟨upper, lower⟩ := quotient_bounds pos dropped
  obtain ⟨most, least⟩ := rounded_bounds pos dropped
  rcases Nat.lt_trichotomy k top with below | exact | above
  · have : 2 ^ (53 + k) * d ≤ 2 ^ 52 * (d * 2 ^ top) := by
      calc 2 ^ (53 + k) * d ≤ 2 ^ (52 + top) * d :=
            Nat.mul_le_mul_right d (Nat.pow_le_pow_right (by decide) (by omega))
        _ = 2 ^ 52 * (d * 2 ^ top) := by ring
    constructor
    · intro reached
      omega
    · intro reached
      omega
  · subst exact
    have unit : 0 < d * 2 ^ k := Nat.mul_pos pos (Nat.two_pow_pos k)
    have half : 2 ^ 53 ≤ divHalfEven s (d * 2 ^ k) ↔ (2 ^ 54 - 1) * (d * 2 ^ k) ≤ 2 * s :=
      le_divHalfEven_iff (by decide) (by decide) unit
    rw [← half]
    constructor
    · intro reached
      omega
    · intro reached
      omega
  · have : 2 ^ 53 * (d * 2 ^ top) ≤ 2 ^ (52 + k) * d := by
      calc 2 ^ 53 * (d * 2 ^ top) = 2 ^ (53 + top) * d := by ring
        _ ≤ 2 ^ (52 + k) * d :=
            Nat.mul_le_mul_right d (Nat.pow_le_pow_right (by decide) (by omega))
    have lower := lower (by omega)
    have least := least (by omega)
    constructor
    · intro reached
      omega
    · intro reached
      omega

/-- Half a unit above the greatest double. -/
def ceiling : Nat := (2 ^ 54 - 1) * 2 ^ 970

theorem nearest_le (n d : Nat) : nearest n d ≤ infinity := Nat.min_le_right _ _

theorem ceiling_le_iff (n d : Nat) :
    (2 ^ 54 - 1) * (d * 2 ^ 2045) ≤ 2 * (n * 2 ^ places) ↔ ceiling * d ≤ n := by
  have quantum : 0 < 2 ^ places := by decide +kernel
  have powers : 2 ^ 2045 = 2 ^ 970 * (2 * 2 ^ places) := by decide +kernel
  rw [powers, ceiling]
  generalize 2 ^ places = q at quantum
  generalize 2 ^ 970 = a
  have unit : 0 < 2 * q := by omega
  have left : (2 ^ 54 - 1) * (d * (a * (2 * q))) = (2 ^ 54 - 1) * a * d * (2 * q) := by ring
  have right : 2 * (n * q) = n * (2 * q) := by ring
  rw [left, right, Nat.mul_le_mul_right_iff unit]

theorem nearest_lt_iff (n : Nat) {d : Nat} (pos : 0 < d) :
    nearest n d < infinity ↔ n < ceiling * d := by
  have reached : infinity ≤ rounded (n * 2 ^ places) d ↔ ceiling * d ≤ n := by
    rw [← ceiling_le_iff]
    exact le_rounded_iff _ pos (show 0 < 2045 by decide)
  rw [nearest_eq, min_lt_iff, or_iff_left (lt_irrefl _), ← not_le, ← not_le, reached]

theorem quanta_eq {q : Nat} (k : Nat) (least : 2 ^ 52 ≤ q) (most : q < 2 ^ 53) :
    quanta (q + k * 2 ^ 52) = q * 2 ^ k := by
  have exponent : (q + k * 2 ^ 52) / 2 ^ 52 = k + 1 := by omega
  have fraction : (q + k * 2 ^ 52) % 2 ^ 52 + 2 ^ 52 = q := by omega
  unfold quanta
  simp only [Nat.pow_eq]
  rw [exponent, if_neg (by omega), fraction, Nat.add_sub_cancel]

/-- A number that 53 bits can hold is the nearest double itself. -/
theorem rounded_exact {q k d : Nat} (pos : 0 < d) (least : 2 ^ 52 ≤ q) (most : q < 2 ^ 53) :
    rounded (q * 2 ^ k * d) d = q + k * 2 ^ 52 := by
  have length : Nat.log2 (q * 2 ^ k) = 52 + k := by
    have some : q * 2 ^ k ≠ 0 := by
      have := Nat.mul_pos (show 0 < q by omega) (Nat.two_pow_pos k)
      omega
    rw [Nat.log2_eq_iff some]
    constructor
    · rw [Nat.pow_add]
      exact Nat.mul_le_mul_right _ least
    · rw [show 52 + k + 1 = 53 + k by omega, Nat.pow_add]
      exact Nat.mul_lt_mul_of_pos_right most (Nat.two_pow_pos k)
  unfold rounded
  rw [Nat.mul_div_cancel _ pos, length, Nat.add_sub_cancel_left, Nat.mul_assoc,
    Nat.mul_comm (2 ^ k) d]
  rw [divHalfEven_mul q (Nat.mul_pos pos (Nat.two_pow_pos k))]

/-- A whole number of at most `2 ^ 53` has 53 bits at most. -/
theorem exists_fraction {n p : Nat} (some : 0 < n) (small : n ≤ 2 ^ 53) (enough : 52 ≤ p) :
    ∃ q k, 2 ^ 52 ≤ q ∧ q < 2 ^ 53 ∧ k ≤ p + 1 ∧ n * 2 ^ p = q * 2 ^ k := by
  by_cases top : n = 2 ^ 53
  · refine ⟨2 ^ 52, p + 1, le_refl _, by decide, le_refl _, ?_⟩
    rw [top]
    ring
  · have length : Nat.log2 n ≤ 52 := Nat.le_of_lt_succ ((Nat.log2_lt (by omega)).mpr (by omega))
    have least := Nat.log2_self_le (show n ≠ 0 by omega)
    have most := Nat.lt_log2_self (n := n)
    have up : 2 ^ Nat.log2 n * 2 ^ (52 - Nat.log2 n) = 2 ^ 52 := by
      rw [← Nat.pow_add, Nat.add_sub_cancel' length]
    have down : 2 ^ (52 - Nat.log2 n) * 2 ^ (p - (52 - Nat.log2 n)) = 2 ^ p := by
      rw [← Nat.pow_add, Nat.add_sub_cancel' (by omega)]
    refine ⟨n * 2 ^ (52 - Nat.log2 n), p - (52 - Nat.log2 n), ?_, ?_, by omega, ?_⟩
    · rw [← up]
      exact Nat.mul_le_mul_right _ least
    · calc n * 2 ^ (52 - Nat.log2 n) < 2 ^ (Nat.log2 n + 1) * 2 ^ (52 - Nat.log2 n) :=
            Nat.mul_lt_mul_of_pos_right most (Nat.two_pow_pos _)
        _ = 2 * (2 ^ Nat.log2 n * 2 ^ (52 - Nat.log2 n)) := by ring
        _ = 2 ^ 53 := by
            rw [up]
            rfl
    · rw [Nat.mul_assoc, down]

theorem quanta_rounded {n p top : Nat} (some : 0 < n) (small : n ≤ 2 ^ 53) (enough : 52 ≤ p)
    (room : (p + 3) * 2 ^ 52 ≤ top) :
    quanta (min (rounded (n * 2 ^ p) 1) top) = n * 2 ^ p := by
  obtain ⟨q, k, least, most, bound, same⟩ := exists_fraction some small enough
  have exact : rounded (n * 2 ^ p) 1 = q + k * 2 ^ 52 := by
    rw [same, ← Nat.mul_one (q * 2 ^ k), rounded_exact (by decide) least most]
  have fits : q + k * 2 ^ 52 ≤ top := by omega
  rw [exact, min_eq_left fits, quanta_eq k least most, same]

/-- Whole numbers up to `2 ^ 53` are doubles. -/
theorem quanta_nearest {n : Nat} (small : n ≤ 2 ^ 53) :
    quanta (nearest n 1) = n * 2 ^ places := by
  rcases Nat.eq_zero_or_pos n with rfl | some
  · decide +kernel
  · rw [nearest_eq]
    exact quanta_rounded some small (by decide) (by decide)

theorem nearest_injective {m n : Nat} (small : m ≤ 2 ^ 53) (small' : n ≤ 2 ^ 53)
    (same : nearest m 1 = nearest n 1) : m = n := by
  have quantum : 0 < 2 ^ places := by decide +kernel
  have equal : m * 2 ^ places = n * 2 ^ places := by
    rw [← quanta_nearest small, ← quanta_nearest small', same]
  exact Nat.eq_of_mul_eq_mul_right quantum equal

/-- The number that a decimal stands for. -/
def Decimal.value (d : Decimal) : ℚ := d.digits * 10 ^ d.exponent

theorem Decimal.magnitude_le (d : Decimal) : d.magnitude ≤ infinity := by
  unfold magnitude
  split
  · exact Nat.zero_le _
  · split
    · exact le_refl _
    · split
      · exact Nat.zero_le _
      · split
        · exact nearest_le _ _
        · exact nearest_le _ _

/-- A decimal with an exponent above 400 is too large to be a double. -/
theorem Decimal.large {digits : Nat} {exponent : Int} (some : digits ≠ 0) (large : 400 < exponent) :
    (ceiling : ℚ) ≤ digits * 10 ^ exponent := by
  have bound : ceiling ≤ 10 ^ 401 := by decide +kernel
  calc (ceiling : ℚ) ≤ 10 ^ 401 := by exact_mod_cast bound
    _ = 10 ^ (401 : Int) := rfl
    _ ≤ 10 ^ exponent := zpow_le_zpow_right₀ (by norm_num) (by omega)
    _ ≤ digits * 10 ^ exponent :=
        le_mul_of_one_le_left (by positivity) (by exact_mod_cast Nat.one_le_iff_ne_zero.mpr some)

/-- A decimal with more places after the point than digits is below 1. -/
theorem Decimal.small {digits : Nat} {exponent : Int}
    (small : exponent < -(Nat.log2 digits + 400 : Int)) : (digits : ℚ) * 10 ^ exponent < 1 := by
  have length : (digits : ℚ) < 10 ^ ((Nat.log2 digits + 1 : Nat) : Int) := by
    have : digits < 10 ^ (Nat.log2 digits + 1) :=
      lt_of_lt_of_le Nat.lt_log2_self (Nat.pow_le_pow_left (by decide) _)
    exact_mod_cast this
  calc (digits : ℚ) * 10 ^ exponent
      < 10 ^ ((Nat.log2 digits + 1 : Nat) : Int) * 10 ^ exponent :=
        mul_lt_mul_of_pos_right length (by positivity)
    _ = 10 ^ (((Nat.log2 digits + 1 : Nat) : Int) + exponent) := (zpow_add₀ (by norm_num) _ _).symm
    _ ≤ 10 ^ (0 : Int) := zpow_le_zpow_right₀ (by norm_num) (by omega)
    _ = 1 := zpow_zero _

theorem one_le_ceiling : 1 ≤ ceiling := by decide +kernel

/-- The double nearest to a decimal is finite as long as the decimal is less than half a unit above the
greatest double. -/
theorem Decimal.magnitude_lt_iff (d : Decimal) : d.magnitude < infinity ↔ d.value < ceiling := by
  have least : (1 : ℚ) ≤ ceiling := by exact_mod_cast one_le_ceiling
  have top : 0 < infinity := by decide
  obtain ⟨digits, exponent⟩ := d
  unfold magnitude value
  simp only
  split
  · rename_i none
    rw [none, Nat.cast_zero, zero_mul]
    exact ⟨fun _ => by linarith, fun _ => top⟩
  · rename_i some
    split
    · rename_i large
      have := Decimal.large some large
      exact ⟨fun below => absurd below (lt_irrefl _), fun below => absurd below (not_lt.mpr this)⟩
    · split
      · rename_i small
        have := Decimal.small small
        exact ⟨fun _ => by linarith, fun _ => top⟩
      · cases exponent with
        | ofNat e =>
          change nearest (digits * 10 ^ e) 1 < infinity ↔ _
          rw [nearest_lt_iff _ (by decide), Nat.mul_one, Int.ofNat_eq_natCast, zpow_natCast]
          exact_mod_cast Iff.rfl
        | negSucc e =>
          have unit : 0 < 10 ^ (e + 1) := Nat.pow_pos (by decide)
          change nearest digits (10 ^ (e + 1)) < infinity ↔ _
          rw [nearest_lt_iff _ unit, zpow_negSucc, ← div_eq_mul_inv, div_lt_iff₀ (by positivity)]
          exact_mod_cast Iff.rfl

theorem isFinite_toDouble (d : Decimal) (negative : Bool) :
    (d.toDouble negative).isFinite = true ↔ d.value < ceiling := by
  rw [isFinite_iff, Decimal.toDouble, magnitude_ofMagnitude negative d.magnitude_le,
    d.magnitude_lt_iff]

theorem ofInt_beq_self (n : Int) : (ofInt n == ofInt n) = true := by
  apply beq_self
  rw [ofInt, magnitude_ofMagnitude _ (nearest_le _ _)]
  exact nearest_le _ _

/-- Whole numbers up to `2 ^ 53` are told apart by their doubles. -/
theorem ofInt_injective {m n : Int} (small : m.natAbs ≤ 2 ^ 53) (small' : n.natAbs ≤ 2 ^ 53)
    (same : (ofInt m == ofInt n) = true) : m = n := by
  have top := infinity_eq
  have bound := nearest_le m.natAbs 1
  have bound' := nearest_le n.natAbs 1
  rcases eq_of_beq same with bits | ⟨zero, zero'⟩
  · have bits := congrArg UInt64.toNat bits
    rw [ofInt, ofInt, toBits_ofMagnitude _ bound, toBits_ofMagnitude _ bound'] at bits
    have size : nearest m.natAbs 1 = nearest n.natAbs 1 ∧ (m < 0 ↔ n < 0) := by
      by_cases low : m < 0
      · by_cases low' : n < 0
        · simp [low, low'] at bits ⊢
          exact bits
        · simp [low, low'] at bits
          omega
      · by_cases low' : n < 0
        · simp [low, low'] at bits
          omega
        · simp [low, low'] at bits ⊢
          exact bits
    have := nearest_injective small small' size.1
    omega
  · rw [ofInt, magnitude_ofMagnitude _ bound] at zero
    rw [ofInt, magnitude_ofMagnitude _ bound'] at zero'
    have := nearest_injective small small' (zero.trans zero'.symm)
    have none := nearest_injective small (Nat.zero_le _) (zero.trans (by decide +kernel))
    omega

end RegisterMachine.Number
