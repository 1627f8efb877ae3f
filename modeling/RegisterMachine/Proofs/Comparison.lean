import RegisterMachine.Proofs.Documents
import RegisterMachine.Proofs.Literals
import RegisterMachine.Proofs.Rounding

/-!
Equality of arrays and objects. Documents are compared as they were read, with a whole number apart
from every double, while a number that is read out of one is a double. So structures are equal if and
only if they agree in all that can be read out of them and no number in one blurs with a number in the
other (`same_array_iff`, `same_object_iff`, `compare_fields`).
-/

namespace RegisterMachine

/-- An index is read from its decimal digits, as long as it fits 64 bits. -/
theorem readIndex?_toString (i : Nat) :
    readIndex? (toString i) = if i < Nat.pow 2 64 then some i else none := by
  have digits : (toString i).toList = Nat.toDigits 10 i := Nat.toList_repr
  have numeric := Number.digits_toDigits i
  have value := Number.ofDigits_toDigits i
  unfold readIndex?
  rw [digits]
  cases first : Nat.toDigits 10 i with
  | nil => exact absurd first Nat.toDigits_ne_nil
  | cons c rest =>
    rw [first] at numeric value
    have unsigned : c ≠ '+' := by
      rintro rfl
      cases numeric '+' (by simp)
    have all : (c :: rest).all Char.isDigit = true := List.all_eq_true.mpr numeric
    simp [unsigned, all, value]

namespace JsonNumber

/-- Numbers that are not the same in a document and have equal doubles: a whole number and a double,
or two whole numbers of which one is too large for its double to be exact. -/
inductive Blurs : JsonNumber → JsonNumber → Prop where
  | whole {m n : Int} (different : m ≠ n) (large : 2 ^ 53 < m.natAbs ∨ 2 ^ 53 < n.natAbs)
      (rounds : (Number.ofInt m == Number.ofInt n) = true) : Blurs (.integer m) (.integer n)
  | left {n : Int} {x : Float} (rounds : (Number.ofInt n == x) = true) :
      Blurs (.integer n) (.float x)
  | right {x : Float} {n : Int} (rounds : (x == Number.ofInt n) = true) :
      Blurs (.float x) (.integer n)

theorem same_iff (m n : JsonNumber) :
    m.same n = true ↔ (m.toDouble == n.toDouble) = true ∧ ¬ m.Blurs n := by
  cases m with
  | integer m =>
    cases n with
    | integer n =>
      simp only [same, toDouble, beq_iff_eq]
      constructor
      · rintro rfl
        refine ⟨Number.ofInt_beq_self m, ?_⟩
        rintro ⟨different, -, -⟩
        exact different rfl
      · rintro ⟨rounds, sharp⟩
        by_contra different
        by_cases small : m.natAbs ≤ 2 ^ 53 ∧ n.natAbs ≤ 2 ^ 53
        · exact different (Number.ofInt_injective small.1 small.2 rounds)
        · exact sharp (.whole different (by omega) rounds)
    | float x =>
      simp only [same, toDouble, Bool.false_eq_true, false_iff, not_and, not_not]
      exact .left
  | float x =>
    cases n with
    | integer n =>
      simp only [same, toDouble, Bool.false_eq_true, false_iff, not_and, not_not]
      exact .right
    | float y =>
      simp only [same, toDouble, iff_self_and]
      rintro - ⟨⟩

end JsonNumber

namespace Json

/-- The items of equal arrays are equal at each index. -/
theorem sameItems_iff (xs ys : List Json) :
    sameItems xs ys = true ↔
      xs.length = ys.length ∧
        ∀ i : Nat, Option.Rel (fun x y : Json => x.same y = true) xs[i]? ys[i]? := by
  induction xs generalizing ys with
  | nil =>
    cases ys with
    | nil => simp [sameItems]
    | cons y ys => simp [sameItems]
  | cons x xs ih =>
    cases ys with
    | nil => simp [sameItems]
    | cons y ys =>
      rw [sameItems, Bool.and_eq_true, ih]
      constructor
      · rintro ⟨first, lengths, others⟩
        refine ⟨by simp [lengths], fun i => ?_⟩
        cases i with
        | zero => exact .some first
        | succ i => simpa using others i
      · rintro ⟨lengths, items⟩
        refine ⟨by simpa using items 0, by simpa using lengths, fun i => ?_⟩
        simpa using items (i + 1)

theorem sameFields_iff (xs ys : Table Json) :
    sameFields xs ys = true ↔
      ∀ field ∈ xs, ∃ y, ys.find? field.1 = some y ∧ field.2.same y = true := by
  induction xs with
  | nil => simp [sameFields]
  | cons field xs ih =>
    obtain ⟨key, x⟩ := field
    rw [sameFields, Bool.and_eq_true, ih, List.forall_mem_cons]
    cases ys.find? key with
    | none => simp
    | some y => simp

end Json

namespace Table

variable {α : Type}

theorem find?_eq_some_iff_mem {t : Table α} (distinct : t.names.Nodup) (name : String) (value : α) :
    t.find? name = some value ↔ (name, value) ∈ t := by
  refine ⟨mem_of_find?, fun member => ?_⟩
  induction t with
  | nil => cases member
  | cons entry rest ih =>
    obtain ⟨key, old⟩ := entry
    obtain ⟨fresh, others⟩ := List.nodup_cons.mp distinct
    rcases List.mem_cons.mp member with same | later
    · cases same
      simp [find?]
    · have different : key ≠ name := by
        rintro rfl
        exact fresh (List.mem_map.mpr ⟨(key, value), later, rfl⟩)
      rw [find?, if_neg different]
      exact ih others later

theorem length_names (t : Table α) : t.names.length = t.length := List.length_map _

theorem find?_eq_none_iff (t : Table α) (name : String) : t.find? name = none ↔ name ∉ t.names := by
  rw [← find?_isSome_iff, Bool.not_eq_true, Option.isSome_eq_false_iff, Option.isNone_iff_eq_none]

end Table

namespace Value

theorem same_ofJson (x y : Json) :
    x.same y = true ↔ (ofJson x).same (ofJson y) = true ∧
      ∀ m n, x = .number m → y = .number n → ¬ m.Blurs n := by
  cases x <;> cases y <;> simp [Json.same, same, ofJson, JsonNumber.same_iff]

/-- Two structures agree at an index or under a key: both have nothing there, or what can be read
out there is equal, and what stands there does not blur. -/
def AgreesAt (a b : Value) (name : String) : Prop :=
  Option.Rel (fun v w => v.same w = true) (a.field? name) (b.field? name) ∧
    ∀ m n, a.item? name = some (.number m) → b.item? name = some (.number n) → ¬ m.Blurs n

theorem agreesAt_iff (a b : Value) (name : String) :
    a.AgreesAt b name ↔ Option.Rel (fun x y => x.same y = true) (a.item? name) (b.item? name) := by
  unfold AgreesAt
  rw [field?_eq, field?_eq]
  cases a.item? name with
  | none =>
    cases b.item? name with
    | none => simp
    | some y => simp
  | some x =>
    cases b.item? name with
    | none => simp
    | some y => simp [same_ofJson]

/-- Arrays are equal if and only if they are of one length and agree at every index. An array has no
index beyond 64 bits. -/
theorem same_array_iff {xs ys : List Json} (bound : xs.length ≤ Nat.pow 2 64) :
    (array xs).same (array ys) = true ↔
      xs.length = ys.length ∧ ∀ i : Nat, (array xs).AgreesAt (array ys) (toString i) := by
  simp only [same, Json.same, Json.sameItems_iff, agreesAt_iff, item?, readIndex?_toString]
  refine and_congr_right fun lengths => forall_congr' fun i => ?_
  by_cases small : i < Nat.pow 2 64
  · simp [small]
  · have left : xs[i]? = none := List.getElem?_eq_none (by omega)
    have right : ys[i]? = none := List.getElem?_eq_none (by omega)
    simp [small, left, right]

/-- Objects are equal if and only if they have the same keys, in any order, and agree under every
key. -/
theorem same_object_iff {xs ys : Table Json} (distinct : xs.names.Nodup)
    (distinct' : ys.names.Nodup) :
    (object xs).same (object ys) = true ↔
      (∀ key, key ∈ xs.names ↔ key ∈ ys.names) ∧ ∀ key, (object xs).AgreesAt (object ys) key := by
  simp only [same, Json.same, Bool.and_eq_true, beq_iff_eq, Json.sameFields_iff, agreesAt_iff,
    item?]
  constructor
  · rintro ⟨lengths, equal⟩
    have subset : xs.names ⊆ ys.names := by
      intro key member
      obtain ⟨field, held, rfl⟩ := List.mem_map.mp member
      obtain ⟨y, found, _⟩ := equal field held
      rw [← Table.find?_isSome_iff, found]
      rfl
    have perm : xs.names.Perm ys.names := by
      apply (distinct.subperm subset).perm_of_length_le
      rw [Table.length_names, Table.length_names, lengths]
    refine ⟨fun key => perm.mem_iff, fun key => ?_⟩
    cases found : xs.find? key with
    | none =>
      rw [Table.find?_eq_none_iff, perm.mem_iff, ← Table.find?_eq_none_iff] at found
      rw [found]
      exact .none
    | some x =>
      obtain ⟨y, found', same⟩ := equal (key, x) (Table.mem_of_find? found)
      rw [found']
      exact .some same
  · rintro ⟨keys, equal⟩
    have perm : xs.names.Perm ys.names := (List.perm_ext_iff_of_nodup distinct distinct').mpr keys
    refine ⟨by rw [← xs.length_names, ← ys.length_names, perm.length_eq], ?_⟩
    rintro ⟨key, x⟩ held
    have related := equal key
    rw [(Table.find?_eq_some_iff_mem distinct key x).mpr held] at related
    generalize ys.find? key = y at related
    cases related with
    | some same => exact ⟨_, rfl, same⟩

/-- How the comparison of two values comes out where an array or an object is among them. -/
structure Compares (a b : Value) : Prop where
  arrays : ∀ xs ys, a = array xs → b = array ys → xs.length ≤ Nat.pow 2 64 →
    (a.same b = true ↔ xs.length = ys.length ∧ ∀ i : Nat, a.AgreesAt b (toString i))
  objects : ∀ xs ys, a = object xs → b = object ys →
    (a.same b = true ↔ (∀ key, key ∈ xs.names ↔ key ∈ ys.names) ∧ ∀ key, a.AgreesAt b key)
  apart : a.same b = true → ((∃ xs, a = array xs) ↔ ∃ ys, b = array ys)

theorem Keyed.names {fields : Table Json} (keyed : (object fields).Keyed) : fields.names.Nodup := by
  cases keyed with
  | object distinct => exact distinct

theorem compares {a b : Value} (keyed : a.Keyed) (keyed' : b.Keyed) : a.Compares b where
  arrays := by
    rintro xs ys rfl rfl bound
    exact same_array_iff bound
  objects := by
    rintro xs ys rfl rfl
    exact same_object_iff keyed.names keyed'.names
  apart := by
    intro equal
    cases a <;> cases b <;> simp_all [same]

end Value

namespace Machine

/-- Comparing two operands sets the target to whether they are equal. Arrays are equal if and only if
they have one length and agree at every index, and objects if and only if they have the same keys and
agree under every key; an array equals nothing else. -/
theorem compare_fields {m : Machine} (keyed : m.bank.Keyed) {left right : String} {a b : Value}
    (reads : (Operand.resolve left m.bank).result = .ok a)
    (reads' : (Operand.resolve right m.bank).result = .ok b) :
    (∀ line target, m.bank.contains target = true →
      ∃ next, (m.perform line (.compare left right target)).result = .ok (next, []) ∧
        next.bank.find? target = some (.boolean (a.same b))) ∧ a.Compares b := by
  constructor
  · intro line target held
    obtain ⟨bank, set, found⟩ := Bank.set_held held (.boolean (a.same b))
    obtain ⟨old, present⟩ := Bank.get_held held
    refine ⟨{ m with bank := bank }, ?_, found⟩
    simp only [perform, Attempt.bind_ok, Attempt.result_lift, Attempt.result_pure]
    exact ⟨a, reads, b, reads', old, present, bank, set, rfl⟩
  · apply Value.compares
    · exact Operand.resolve_keyed keyed reads
    · exact Operand.resolve_keyed keyed reads'

/-- An object that a register holds and one with its keys the other way round. -/
theorem compare_fields_reordered :
    let source := "mov rg1 \x7b\"a\": [1, 2.5], \"b\": \x7b\"c\": null\x7d\x7d"
    ∃ s, (Session.load source none).2 = .ok s ∧
      let m := s.machine.walk 1
      let other := "\x7b\"b\": \x7b\"c\": null\x7d, \"a\": [1, 2.5]\x7d"
      m.bank.Keyed ∧ ∃ a b next, (Operand.resolve "rg1" m.bank).result = .ok a ∧
        (Operand.resolve other m.bank).result = .ok b ∧ a.Compares b ∧
        (m.perform ⟨2, "", "cmp", []⟩ (.compare "rg1" other "rg0")).result = .ok (next, []) ∧
        next.bank.find? "rg0" = some (.boolean true) := by
  let other := "\x7b\"b\": \x7b\"c\": null\x7d, \"a\": [1, 2.5]\x7d"
  obtain ⟨s, loaded, computed⟩ := Session.loaded_with
    "mov rg1 \x7b\"a\": [1, 2.5], \"b\": \x7b\"c\": null\x7d\x7d" none
    (fun s => ((s.machine.walk 1).bank.contains "rg0",
      (Operand.resolve "rg1" (s.machine.walk 1).bank).result.toOption.bind fun a =>
        (Operand.resolve other (s.machine.walk 1).bank).result.toOption.map fun b => a.same b))
    (true, some true) (by decide +kernel)
  simp only [Prod.mk.injEq, Option.bind_eq_some_iff, Option.map_eq_some_iff] at computed
  obtain ⟨held, a, read, b, read', equal⟩ := computed
  have keyed := Session.walk_keyed loaded 1
  obtain ⟨_, reads, rfl⟩ := ok_of_computed (f := id) (by rw [read]; rfl)
  obtain ⟨_, reads', rfl⟩ := ok_of_computed (f := id) (by rw [read']; rfl)
  obtain ⟨stores, compares⟩ := compare_fields keyed reads reads'
  obtain ⟨next, performed, found⟩ := stores ⟨2, "", "cmp", []⟩ "rg0" held
  exact ⟨s, loaded, keyed, _, _, next, reads, reads', compares, performed, equal ▸ found⟩

/-- A whole number and the same number with a point are equal when they are read out, and make objects
differ. -/
theorem equal_fields_differ :
    ∃ xs ys, (Operand.resolve "\x7b\"v\": 1\x7d" .initial).result = .ok (.object xs) ∧
      (Operand.resolve "\x7b\"v\": 1.0\x7d" .initial).result = .ok (.object ys) ∧
      (∀ key, key ∈ xs.names ↔ key ∈ ys.names) ∧
      (∀ key, Option.Rel (fun v w => v.same w = true) ((Value.object xs).field? key)
        ((Value.object ys).field? key)) ∧
      (Value.object xs).same (.object ys) = false := by
  have equal : (Number.ofInt 1 == Number.ofInt 10 / Json.powerOfTen 1) = true := by decide +kernel
  refine ⟨[("v", .number (.integer 1))],
    [("v", .number (.float (Number.ofInt 10 / Json.powerOfTen 1)))], rfl, rfl,
    fun key => Iff.rfl, fun key => ?_, rfl⟩
  by_cases only : "v" = key
  · subst only
    exact .some equal
  · simp [Value.field?, Table.find?, only]

end Machine

end RegisterMachine
