import Mathlib.Data.List.Nodup
import RegisterMachine.Operand

/-!
Registers as operands. A name that a register can have is no string, no number and no object, and has no
path in it. So an operand of that name reads the register (`resolve_name`), unless it is one of the words
for truth values, which registers can have as names too: what such a register holds is never read
(`created_read`, `created_unread`).
-/

namespace RegisterMachine

namespace Table

variable {α : Type}

theorem find?_put (t : Table α) (name other : String) (value : α) :
    (t.put name value).find? other = if other = name then some value else t.find? other := by
  induction t with
  | nil => simp [put, find?, eq_comm]
  | cons entry rest ih =>
    obtain ⟨key, old⟩ := entry
    by_cases same : key = name
    · by_cases asked : other = name
      · simp [put, find?, same, asked]
      · have different : ¬ name = other := fun h => asked h.symm
        simp [put, find?, same, asked, different]
    · by_cases found : key = other
      · have different : ¬ other = name := fun h => same (found.trans h)
        simp [put, find?, found, different]
      · simp [put, find?, same, found, ih]

theorem find?_replace (t : Table α) (name other : String) (value : α) :
    (t.replace name value).find? other =
      if other = name then (t.find? name).map fun _ => value else t.find? other := by
  induction t with
  | nil => simp [replace, find?]
  | cons entry rest ih =>
    obtain ⟨key, old⟩ := entry
    by_cases same : key = name
    · by_cases asked : other = name
      · simp [replace, find?, same, asked]
      · have different : ¬ name = other := fun h => asked h.symm
        simp [replace, find?, same, asked, different]
    · by_cases found : key = other
      · have different : ¬ other = name := fun h => same (found.trans h)
        simp [replace, find?, found, different]
      · simp [replace, find?, same, found, ih]

theorem names_cons (entry : String × α) (rest : Table α) :
    names (entry :: rest) = entry.1 :: names rest := rfl

/-- A name that is there keeps its place, and a new one comes last. -/
theorem names_put (t : Table α) (name : String) (value : α) :
    (t.put name value).names = if name ∈ t.names then t.names else t.names ++ [name] := by
  induction t with
  | nil => rfl
  | cons entry rest ih =>
    obtain ⟨key, old⟩ := entry
    by_cases same : key = name
    · simp [put, names_cons, same]
    · have different : ¬ name = key := fun h => same h.symm
      rw [put, if_neg same, names_cons, names_cons, ih]
      by_cases held : name ∈ names rest
      · simp [held]
      · simp [held, different]

theorem nodup_put {t : Table α} (distinct : t.names.Nodup) (name : String) (value : α) :
    (t.put name value).names.Nodup := by
  rw [names_put]
  split
  · exact distinct
  · rename_i fresh
    simpa only [List.concat_eq_append] using List.Nodup.concat fresh distinct

theorem names_erase (t : Table α) (name : String) : (t.erase name).names = t.names.erase name := by
  induction t with
  | nil => rfl
  | cons entry rest ih =>
    obtain ⟨key, old⟩ := entry
    rw [erase, names_cons, List.erase_cons]
    by_cases same : key = name
    · simp [same]
    · simp [same, names_cons, ih]

theorem find?_erase {t : Table α} (distinct : t.names.Nodup) (name other : String) :
    (t.erase name).find? other = if other = name then none else t.find? other := by
  induction t with
  | nil => simp [erase, find?]
  | cons entry rest ih =>
    obtain ⟨key, old⟩ := entry
    obtain ⟨fresh, others⟩ := List.nodup_cons.mp distinct
    by_cases same : key = name
    · subst same
      rw [erase, if_pos rfl]
      by_cases asked : other = key
      · subst asked
        rw [if_pos rfl, ← Option.not_isSome_iff_eq_none, find?_isSome_iff]
        exact fresh
      · have different : ¬ key = other := fun h => asked h.symm
        simp [find?, asked, different]
    · by_cases found : key = other
      · have different : ¬ other = name := fun h => same (found.trans h)
        simp [erase, find?, found, different]
      · simp [erase, find?, same, found, ih others]

end Table

namespace Bank

theorem eq_of_set {b b' : Bank} {name : String} {v : Value} (set : b.set name v = .ok b') :
    b' = ⟨b.registers.replace name v⟩ := by
  unfold Bank.set at set
  split at set
  · exact (Except.ok.inj set).symm
  · cases set

theorem eq_of_create {b b' : Bank} {name : String} (created : b.create name = .ok b') :
    Name.check name = .ok () ∧ b' = ⟨b.registers.put name .null⟩ := by
  unfold create at created
  cases checked : Name.check name with
  | error fault =>
    rw [checked] at created
    cases created
  | ok =>
    rw [checked] at created
    exact ⟨rfl, (Except.ok.inj created).symm⟩

theorem get_held {b : Bank} {name : String} (held : b.contains name = true) :
    ∃ v, b.get name = .ok v := by
  obtain ⟨v, found⟩ := Option.isSome_iff_exists.mp held
  exact ⟨v, by rw [get, find?, found]⟩

theorem set_held {b : Bank} {name : String} (held : b.contains name = true) (v : Value) :
    ∃ b', b.set name v = .ok b' ∧ b'.find? name = some v := by
  refine ⟨⟨b.registers.replace name v⟩, by rw [Bank.set, if_pos held], ?_⟩
  obtain ⟨old, found⟩ := Option.isSome_iff_exists.mp held
  simp [find?, Table.find?_replace, found]

/-- A register of any name that a register can have is made, and takes any value. -/
theorem exists_created (bank : Bank) {name : String} (valid : Name.check name = .ok ()) (v : Value) :
    ∃ made held, bank.create name = .ok made ∧ made.set name v = .ok held ∧
      held.find? name = some v := by
  have present : (bank.registers.put name .null).find? name = some .null := by
    rw [Table.find?_put, if_pos rfl]
  refine ⟨⟨bank.registers.put name .null⟩, ⟨(bank.registers.put name .null).replace name v⟩, ?_, ?_, ?_⟩
  · rw [create, valid]
    rfl
  · have contained : contains ⟨bank.registers.put name .null⟩ name = true := by
      rw [contains, Table.contains, present]
      rfl
    rw [set, if_pos contained]
  · rw [find?, Table.find?_replace, if_pos rfl, present]
    rfl

end Bank

namespace Name

/-- What a name that a register can have is made of. -/
structure Plain (name : String) : Prop where
  letters : ∀ c ∈ name.toList, c.isAlphanum = true
  unread : Number.isLiteral name = false

theorem plain_of_check {name : String} (valid : check name = .ok ()) : Plain name := by
  rw [check_eq_ok_iff] at valid
  simp only [isValid, Bool.and_eq_true, Bool.not_eq_true', List.all_eq_true] at valid
  exact ⟨valid.2, valid.1.1⟩

/-- No other character stands in a name. -/
theorem Plain.not_mem {name : String} (plain : Plain name) {c : Char} (mark : c.isAlphanum = false) :
    c ∉ name.toList := by
  intro member
  rw [plain.letters c member] at mark
  cases mark

theorem Plain.head_ne {name : String} (plain : Plain name) {c : Char} (mark : c.isAlphanum = false) :
    name.toList.head? ≠ some c := by
  intro first
  exact plain.not_mem mark (List.mem_of_mem_head? first)

theorem Plain.unquote? {name : String} (plain : Plain name) :
    Operand.unquote? name.toList = none := by
  have first := plain.head_ne (c := '"') (by decide)
  unfold Operand.unquote?
  split
  · rename_i rest quoted
    rw [quoted] at first
    exact absurd rfl first
  · rfl

theorem Plain.read? {name : String} (plain : Plain name) : Number.read? name = none := by
  rw [← Option.isNone_iff_eq_none, ← Option.not_isSome, Number.isSome_read?, plain.unread]
  rfl

theorem Plain.isBraced {name : String} (plain : Plain name) :
    Operand.isBraced name.toList = false := by
  have first := plain.head_ne (c := '\x7b') (by decide)
  simp [Operand.isBraced, first]

end Name

namespace Operand

/-- A text without a point is a register and no path. -/
theorem segments_plain {cs : List Char} (undotted : '.' ∉ cs) : segments cs = (cs, []) := by
  induction cs with
  | nil => rfl
  | cons c cs ih =>
    rw [List.mem_cons, not_or] at undotted
    have other : c ≠ '.' := fun same => undotted.1 same.symm
    simp [segments, ih undotted.2, other]

theorem resolvePath_plain {name : String} (undotted : '.' ∉ name.toList) {bank : Bank} {v : Value}
    (found : bank.find? name = some v) (filled : v.isNull = false) :
    resolvePath name bank = .ok v := by
  simp only [resolvePath, segments_plain undotted, String.ofList_toList, found, List.map_nil, follow]
  simp [bind, Except.bind, filled]

/-- An operand that names a register reads it, but for the words that are truth values. -/
theorem resolve_name {name : String} (plain : Name.Plain name) {bank : Bank} {v : Value}
    (found : bank.find? name = some v) (filled : v.isNull = false) :
    resolve name bank =
      ⟨[], [], .ok (if name = "true" then .boolean true
        else if name = "false" then .boolean false else v)⟩ := by
  have undotted : '.' ∉ name.toList := plain.not_mem (by decide)
  simp only [resolve, plain.unquote?, plain.read?, plain.isBraced, resolvePath_plain undotted found filled]
  by_cases yes : name = "true"
  · rw [if_pos yes, if_pos yes]
    rfl
  · by_cases no : name = "false"
    · rw [if_neg yes, if_pos no, if_neg yes, if_pos no]
      rfl
    · rw [if_neg yes, if_neg no, if_neg yes, if_neg no]
      rfl

/-- Every register that can be made can be set and then read, unless its name is the word for a truth
value: an operand of that name is the truth value, whatever the register holds. -/
theorem created_read (bank : Bank) {name : String} (valid : Name.check name = .ok ()) {v : Value}
    (filled : v.isNull = false) :
    ∃ made held, bank.create name = .ok made ∧ made.set name v = .ok held ∧
      resolve name held =
        ⟨[], [], .ok (if name = "true" then .boolean true
          else if name = "false" then .boolean false else v)⟩ ∧
      unquote? name.toList = none ∧ Number.read? name = none ∧ isBraced name.toList = false := by
  have plain := Name.plain_of_check valid
  obtain ⟨made, held, created, set, found⟩ := bank.exists_created valid v
  refine ⟨made, held, created, set, resolve_name plain found filled, ?_, ?_, ?_⟩
  · exact plain.unquote?
  · exact plain.read?
  · exact plain.isBraced

/-- A name that begins like a number. -/
theorem created_read_exponent :
    Name.check "1e5x" = .ok () ∧ ∃ made held, Bank.initial.create "1e5x" = .ok made ∧
      made.set "1e5x" (.string "true") = .ok held ∧
      resolve "1e5x" held = ⟨[], [], .ok (.string "true")⟩ := by
  have valid : Name.check "1e5x" = .ok () := (Name.check_eq_ok_iff _).mpr (by decide +kernel)
  obtain ⟨made, held, created, set, read, _⟩ :=
    created_read Bank.initial valid (show (Value.string "true").isNull = false from rfl)
  exact ⟨valid, made, held, created, set, read⟩

/-- A register can have the name `true`, and what it holds is then not read. -/
theorem created_unread :
    Name.check "true" = .ok () ∧ ∃ made held, Bank.initial.create "true" = .ok made ∧
      made.set "true" (.number 5) = .ok held ∧
      resolve "true" held = ⟨[], [], .ok (.boolean true)⟩ ∧
      resolve "true" held ≠ ⟨[], [], .ok (.number 5)⟩ := by
  have valid : Name.check "true" = .ok () := (Name.check_eq_ok_iff _).mpr (by decide +kernel)
  obtain ⟨made, held, created, set, found⟩ := Bank.initial.exists_created valid (.number 5)
  have read : resolve "true" held = ⟨[], [], .ok (.boolean true)⟩ :=
    resolve_name (Name.plain_of_check valid) found rfl
  refine ⟨valid, made, held, created, set, read, ?_⟩
  rw [read]
  nofun

end Operand

end RegisterMachine
