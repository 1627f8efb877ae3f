import Mathlib.Order.Bounds.Basic
import RegisterMachine.Proofs.Placement

/-!
Flow outside of calls. With no call active, a machine that stands in a function goes on after its last
line, and nothing else about it changes. Functions may follow each other, so it does this until it
stands in none (`Machine.exists_skips`). The line that it carries out then is the first one from where
it was that lies in no function, and if there is no such line the run ends (`Session.flow_outside`).
-/

namespace RegisterMachine

/-- A line that lies in no function stands at the address. -/
def Program.Outside (p : Program) (address : Nat) : Prop :=
  (p.line? address).isSome = true ∧ p.owner? address = none

instance (p : Program) (address : Nat) : Decidable (p.Outside address) :=
  inferInstanceAs (Decidable ((p.line? address).isSome = true ∧ p.owner? address = none))

theorem Program.Tidy.close_le_size {p : Program} (tidy : p.Tidy) {r : Region}
    (member : r ∈ p.regions) : r.close ≤ p.lines.size := by
  simpa using (tidy.spans r member).close_le

theorem Program.line?_isSome (p : Program) {address : Nat} (first : 0 < address)
    (last : address ≤ p.lines.size) : (p.line? address).isSome = true := by
  have place : address - 1 < p.lines.size := by omega
  simp [line?, Nat.ne_of_gt first, place]

theorem Program.line?_le_size {p : Program} {address : Nat}
    (found : (p.line? address).isSome = true) : address ≤ p.lines.size := by
  obtain ⟨line, at_address⟩ := Option.isSome_iff_exists.mp found
  rw [line?_eq] at at_address
  simpa using (Listing.line?_bound at_address).2

namespace Machine

variable {m : Machine} {n address : Nat}

/-- The machine goes around functions, a number of times, to an address. Every step on the way leads
from a line of a function to the line after the function, changes nothing but the place in the program
and raises and notes nothing. -/
structure Skips (m : Machine) (n address : Nat) : Prop where
  reached : m.walk n = { m with pc := address }
  each : ∀ i, i < n → ∃ a region, m.walk i = { m with pc := a } ∧
    m.program.owner? a = some region ∧
    (m.walk i).step = ⟨{ m with pc := region.close + 1 }, [], []⟩

theorem step_around (idle : m.stack.items = []) {region : Region}
    (owner : m.program.owner? m.pc = some region) :
    m.step = ⟨{ m with pc := region.close + 1 }, [], []⟩ := by
  have top : m.stack.top? = none := List.head?_eq_none_iff.mpr idle
  simp only [step, top, owner]

theorem Skips.here (m : Machine) : m.Skips 0 m.pc where
  reached := rfl
  each := fun i before => absurd before (Nat.not_lt_zero i)

/-- One function more to go around first. -/
theorem Skips.around (running : m.running = true) (idle : m.stack.items = []) {region : Region}
    (owner : m.program.owner? m.pc = some region)
    (rest : Skips { m with pc := region.close + 1 } n address) : m.Skips (n + 1) address := by
  have step := step_around idle owner
  have later : ∀ i, m.walk (i + 1) = walk { m with pc := region.close + 1 } i := by
    intro i
    rw [walk_first running, step]
  refine ⟨by rw [later, rest.reached], fun i before => ?_⟩
  cases i with
  | zero => exact ⟨m.pc, region, rfl, owner, step⟩
  | succ i =>
    rw [later]
    exact rest.each i (Nat.lt_of_succ_lt_succ before)

theorem Skips.raised (skips : m.Skips n address) : m.raised n = [] := by
  have silent : ∀ k, k ≤ n → m.raised k = [] := by
    intro k
    induction k with
    | zero => exact fun _ => rfl
    | succ k ih =>
      intro within
      obtain ⟨_, _, _, _, step⟩ := skips.each k within
      simp [Machine.raised, ih (Nat.le_of_succ_le within), emits, step]
  exact silent n (Nat.le_refl n)

/-- A machine outside of calls goes around functions to the first address that lies in none. -/
theorem exists_skips (tidy : m.program.Tidy) (running : m.running = true)
    (idle : m.stack.items = []) :
    ∃ n address, m.Skips n address ∧ m.pc ≤ address ∧ m.program.owner? address = none ∧
      ∀ a, m.pc ≤ a → a < address → m.program.owner? a ≠ none := by
  -- Each function that is gone around leaves fewer lines ahead.
  induction ahead : m.program.lines.size + 1 - m.pc using Nat.strong_induction_on
    generalizing m with
  | h left ih =>
    cases owner : m.program.owner? m.pc with
    | none =>
      refine ⟨0, m.pc, .here m, Nat.le_refl _, owner, fun a first before => ?_⟩
      exact absurd first (Nat.not_le_of_lt before)
    | some region =>
      obtain ⟨member, declared, closed⟩ := Program.mem_of_owner? owner
      have bound := tidy.close_le_size member
      have fewer : m.program.lines.size + 1 - (region.close + 1) < left := by omega
      obtain ⟨n, address, skips, first, free, owned⟩ :=
        @ih _ fewer { m with pc := region.close + 1 } tidy running idle rfl
      dsimp only at first owned
      refine ⟨n + 1, address, skips.around running idle owner, by omega, free, fun a after before => ?_⟩
      by_cases inside : a ≤ region.close
      · rw [tidy.owner?_eq_some member a ⟨by omega, inside⟩]
        exact Option.some_ne_none region
      · exact owned a (by omega) before

/-- The place that the machine stands at and those that it may return to count from 1, as lines do. -/
structure Grounded (m : Machine) : Prop where
  pc : 0 < m.pc
  returns : ∀ frame ∈ m.stack.items, ∀ back ∈ frame.returnTo, 0 < back

theorem label_positive {p : Program} {target : Nat} (label : p.opcode? target = some .lb) :
    0 < target := by
  rw [Program.opcode?_eq] at label
  exact (Listing.opcode?_bound label).1

theorem Effect.grounded {next : Machine} {line : Line} {i : Instruction}
    (effect : m.Effect line i next) (tidy : m.program.Tidy) (grounded : m.Grounded) :
    next.Grounded := by
  cases effect with
  | work | defer | exit => exact ⟨grounded.pc, grounded.returns⟩
  | goto target taken near =>
    exact ⟨label_positive (destination_label tidy taken), grounded.returns⟩
  | call name arguments region stack known pushed =>
    obtain ⟨_, _, _, items⟩ := Stack.push_ok pushed
    refine ⟨Nat.succ_pos _, fun frame among back returns => ?_⟩
    rcases List.mem_cons.mp (items ▸ among) with rfl | old
    · cases returns
      exact grounded.pc
    · exact grounded.returns frame old back returns

theorem Move.grounded {next : Machine} {events : List Event} {entry : Bool}
    (move : m.Move next events) (kept : m.Kept entry) (grounded : m.Grounded) : next.Grounded := by
  cases move with
  | skip => exact ⟨Nat.succ_pos _, grounded.returns⟩
  | finish => exact ⟨grounded.pc, grounded.returns⟩
  | fail => exact ⟨Nat.succ_pos _, grounded.returns⟩
  | back frame stack address popped reached origin =>
    obtain ⟨_, _, calls⟩ := Stack.pop?_some popped
    have below : ∀ lower ∈ stack.items, ∀ back ∈ lower.returnTo, 0 < back := fun lower member =>
      grounded.returns lower (calls ▸ List.mem_cons_of_mem _ member)
    have home : 0 < address := grounded.returns frame (calls ▸ List.mem_cons_self) address origin
    refine ⟨?_, below⟩
    dsimp only
    split
    · cases waits : m.detour with
      | none => exact home
      | some target => exact label_positive (kept.placed.detour target waits).2
    · exact home
  | leave frame stack popped =>
    obtain ⟨_, _, calls⟩ := Stack.pop?_some popped
    exact ⟨grounded.pc, fun lower member =>
      grounded.returns lower (calls ▸ List.mem_cons_of_mem _ member)⟩
  | run line i next own fetched decoded effect gives =>
    exact effect.grounded kept.tidy ⟨Nat.succ_pos _, grounded.returns⟩

theorem Grounded.walk {entry : Bool} (grounded : m.Grounded) (kept : m.Kept entry) (n : Nat) :
    (m.walk n).Grounded := by
  induction n with
  | zero => exact grounded
  | succ n ih =>
    rw [Machine.walk]
    split
    · exact (m.walk n).step_move.grounded (kept.walk n) ih
    · exact ih

/-- Where no function owns the address that is skipped to, the line there is carried out. -/
theorem Skips.carries (skips : m.Skips n address) (idle : m.stack.items = [])
    (free : m.program.owner? address = none) {line : Line}
    (found : m.program.line? address = some line) :
    (m.walk n).step = ((m.walk n).reading line).dispatch line := by
  have top : m.stack.top? = none := List.head?_eq_none_iff.mpr idle
  apply step_next
  rw [skips.reached]
  simp [next?, top, free, found]

theorem Skips.stops (skips : m.Skips n address) (idle : m.stack.items = [])
    (free : m.program.owner? address = none) (gone : m.program.line? address = none) :
    (m.walk n).step = ⟨(m.walk n).halt, [.stopped], []⟩ := by
  have top : m.stack.top? = none := List.head?_eq_none_iff.mpr idle
  rw [skips.reached]
  simp only [step, top, free, fetch, gone]

/-- Outside of calls the next line that is carried out is the first one that lies in no function. -/
theorem Kept.carries_first {entry : Bool} (kept : m.Kept entry) (grounded : m.Grounded)
    (running : m.running = true) (idle : m.stack.items = [])
    (first : IsLeast {a | m.pc ≤ a ∧ m.program.Outside a} address) :
    ∃ n line, m.Skips n address ∧ m.program.line? address = some line ∧
      (m.walk n).step = ((m.walk n).reading line).dispatch line := by
  obtain ⟨n, reached, skips, ahead, free, owned⟩ := exists_skips kept.tidy running idle
  obtain ⟨⟨later, found, unowned⟩, lowest⟩ := first
  have upper : reached ≤ address := by
    by_contra before
    exact owned address later (by omega) unowned
  -- The address that is reached lies among the lines, since one after it does.
  have inside : (m.program.line? reached).isSome = true := by
    apply Program.line?_isSome
    · exact Nat.lt_of_lt_of_le grounded.pc ahead
    · exact Nat.le_trans upper (Program.line?_le_size found)
  obtain rfl : address = reached := Nat.le_antisymm (lowest ⟨ahead, inside, free⟩) upper
  obtain ⟨line, at_address⟩ := Option.isSome_iff_exists.mp inside
  exact ⟨n, line, skips, at_address, skips.carries idle free at_address⟩

/-- Outside of calls the run ends if no line ahead lies outside of all functions. -/
theorem Kept.stops_outside {entry : Bool} (kept : m.Kept entry) (running : m.running = true)
    (idle : m.stack.items = []) (nowhere : ∀ a, m.pc ≤ a → ¬ m.program.Outside a) :
    ∃ n address, m.Skips n address ∧ (m.walk n).step = ⟨(m.walk n).halt, [.stopped], []⟩ := by
  obtain ⟨n, address, skips, ahead, free, _⟩ := exists_skips kept.tidy running idle
  have gone : m.program.line? address = none := by
    by_contra found
    exact nowhere address ahead ⟨Option.isSome_iff_ne_none.mpr found, free⟩
  exact ⟨n, address, skips, skips.stops idle free gone⟩

end Machine

namespace Session

theorem load_grounded {source : String} {entry : Option String} {s : Session}
    (loaded : (load source entry).2 = .ok s) : s.machine.Grounded := by
  rcases load_machine loaded with ⟨_, started⟩ | ⟨function, _, started⟩
  · rw [started]
    refine ⟨Nat.one_pos, fun frame among => ?_⟩
    simp [Machine.start, Stack.empty] at among
  · obtain ⟨region, _, machine⟩ := Machine.startAt_ok started
    generalize s.machine.program = p at machine
    rw [machine]
    refine ⟨Nat.succ_pos _, fun frame among back returns => ?_⟩
    rw [List.mem_singleton.mp among] at returns
    cases returns

theorem after_grounded {source : String} {entry : Option String} {s : Session}
    (loaded : (load source entry).2 = .ok s) (requests : List Request) :
    (s.after requests).machine.Grounded := by
  have walked := (load_grounded loaded).walk (load_ok loaded).2.2.2 (s.taken requests)
  rcases s.after_machine requests with same | halted
  · rw [same]
    exact walked
  · rw [halted]
    exact ⟨walked.pc, walked.returns⟩

/-- A session in which nothing waits answers with the first event of the first step that has any, if
the budget reaches that far. -/
theorem execute_first {t : Session} (clear : t.pending = []) (running : t.machine.running = true)
    (unasked : t.interrupted = false) {n : Nat} (quiet : t.machine.raised n = []) {event : Event}
    {rest : List Event} (loud : (t.machine.walk n).step.events = event :: rest) {budget : Nat}
    (enough : n < budget) : (t.execute budget).event = event := by
  obtain ⟨notes, advanced⟩ := advance_eq running budget #[]
  have spent : t.machine.span budget = n + 1 := by
    rcases Machine.span_cases running budget with ⟨_, silent⟩ | ⟨k, spent, _, silent, _, speaks⟩
    · -- A budget that runs out in silence has no loud step in it.
      have none := (Machine.silent_walk running silent).2 n enough
      rw [loud] at none
      cases none
    · rcases Nat.lt_trichotomy k n with before | rfl | after
      · exact absurd ((Machine.silent_walk running quiet).2 k before) speaks
      · exact spent
      · have none := (Machine.silent_walk running silent).2 n after
        rw [loud] at none
        cases none
  have awake := (Machine.silent_walk running quiet).1
  rw [spent, Machine.raised_loud quiet awake, loud] at advanced
  simp [execute, clear, running, unasked, advanced]

/-- Wherever a run stands with no call active, it goes around functions to the first line from there
that lies in none, and carries out that line. If there is no such line it ends, and a session in which
nothing else waits says so. -/
theorem flow_outside {source : String} {entry : Option String} {s : Session}
    (loaded : (load source entry).2 = .ok s) (requests : List Request) (steps : Nat) :
    let m := (s.after requests).machine.walk steps
    (Program.compile (Listing.ofSource source)).2 = .ok m.program ∧
      (m.running = true → m.stack.items = [] →
        (∀ address, IsLeast {a | m.pc ≤ a ∧ m.program.Outside a} address →
          ∃ n line, m.Skips n address ∧ m.program.line? address = some line ∧
            (m.walk n).step = ((m.walk n).reading line).dispatch line) ∧
        ((∀ a, m.pc ≤ a → ¬ m.program.Outside a) →
          ∃ n address, m.Skips n address ∧
            (m.walk n).step = ⟨(m.walk n).halt, [.stopped], []⟩ ∧
            ∀ t : Session, t.machine = m → t.pending = [] → t.interrupted = false →
              ∀ budget, n < budget → (t.execute budget).event = .stopped)) := by
  intro m
  obtain ⟨compiled, _, _, start⟩ := load_ok loaded
  have before := after_kept start requests
  have kept : m.Kept entry.isSome := before.walk steps
  have grounded : m.Grounded := (after_grounded loaded requests).walk before steps
  refine ⟨?_, fun running idle => ⟨fun address first => ?_, fun nowhere => ?_⟩⟩
  · rw [(Machine.walk_fixed _ steps).1, after_program]
    exact compiled
  · exact kept.carries_first grounded running idle first
  · obtain ⟨n, address, skips, stops⟩ := kept.stops_outside running idle nowhere
    refine ⟨n, address, skips, stops, fun t same clear unasked budget enough => ?_⟩
    have loud : (t.machine.walk n).step.events = [.stopped] := by rw [same, stops]
    exact execute_first clear (same ▸ running) unasked (same ▸ skips.raised) loud enough

/-- A jump that was put off leads into a function, and another function follows that one. -/
theorem flow_outside_deferred :
    let source := "call f\nfunction f\njmp in\nendfunction\nfunction g\nlb in\nendfunction\n" ++
      "function h\nendfunction\nexit"
    ∃ s, (load source none).2 = .ok s ∧
      let m := s.machine.walk 3
      (m.pc, m.stack.items, m.running) = (6, [], true) ∧
        ∃ n line, m.Skips n 10 ∧ m.program.line? 10 = some line ∧
          (m.walk n).step = ((m.walk n).reading line).dispatch line := by
  intro source
  obtain ⟨s, loaded, computed⟩ := loaded_with source none
    (fun s =>
      let m := s.machine.walk 3
      ((m.pc, m.stack.items, m.running), [6, 7, 8, 9, 10].map fun a => decide (m.program.Outside a)))
    ((6, [], true), [false, false, false, false, true]) (by decide +kernel)
  obtain ⟨place, lines⟩ := Prod.mk.inj computed
  simp only [List.map_cons, List.map_nil, List.cons.injEq, decide_eq_true_eq, decide_eq_false_iff_not,
    and_true] at lines
  obtain ⟨six, seven, eight, nine, ten⟩ := lines
  obtain ⟨pc, rest⟩ := Prod.mk.inj place
  obtain ⟨idle, running⟩ := Prod.mk.inj rest
  refine ⟨s, loaded, place, ((flow_outside loaded [] 3).2 running idle).1 10 ⟨⟨?_, ten⟩, ?_⟩⟩
  · exact pc ▸ by decide
  · rintro a ⟨ahead, outside⟩
    by_contra before
    have later : 6 ≤ a := pc ▸ ahead
    have between : a = 6 ∨ a = 7 ∨ a = 8 ∨ a = 9 := by omega
    rcases between with rfl | rfl | rfl | rfl
    · exact six outside
    · exact seven outside
    · exact eight outside
    · exact nine outside

end Session

end RegisterMachine
