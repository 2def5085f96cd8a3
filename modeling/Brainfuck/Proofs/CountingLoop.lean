import Brainfuck.Proofs.StraightLine
import Mathlib.Data.Int.GCD
import Mathlib.Order.Bounds.Basic

/-!
Loops that only count and write. A pass through the body adds the same number to the cell
whatever the cell holds, and the cell is tested between passes only, so before each pass the
cell is one more multiple of that number further on, modulo 256 (`Execution.performs_passes`).
The loop stops at the first multiple that brings the cell to zero, if there is one
(`Machine.exists_dvd_add_mul_iff`), and otherwise never (`counting_loop_stops_iff_gcd`).
-/

set_option autoImplicit false
set_option relaxedAutoImplicit false

namespace Brainfuck

/-! ### Rows that stay at their cell -/

namespace Command

/-- What commands write that start with `value` in the cell and stay there. -/
def writtenFrom : UInt8 → List Command → List UInt8
  | _, [] => []
  | value, c :: cs =>
    (if c = .write then [value] else []) ++
      writtenFrom (value + UInt8.ofInt (c.delta?.getD 0)) cs

/-- What the first `k` passes of the commands write, of which each goes on with the cell that the
ones before it leave. -/
def writtenInPasses (value : UInt8) (cs : List Command) (k : Nat) : List UInt8 :=
  (List.range k).flatMap fun i : Nat ↦ writtenFrom (value + UInt8.ofInt (i * total cs)) cs

theorem writtenInPasses_succ (value : UInt8) (cs : List Command) (k : Nat) :
    writtenInPasses value cs (k + 1) =
      writtenInPasses value cs k ++ writtenFrom (value + UInt8.ofInt (k * total cs)) cs := by
  simp [writtenInPasses, List.range_succ]

end Command

namespace Machine

variable {m : Machine} {size : Nat} {value : UInt8} {bytes : List UInt8}

/-- The same machine with `value` in the cell under the pointer, and with `bytes` written behind
its output. -/
def holding (m : Machine) (value : UInt8) (bytes : List UInt8) : Machine :=
  { m with
    tape := m.tape.setIfInBounds m.pointer.toNat value
    output := m.output ++ bytes.toArray }

theorem add_ofInt_zero (value : UInt8) : value + UInt8.ofInt 0 = value :=
  UInt8.add_zero value

namespace OnTape

theorem holding (h : m.OnTape size) (value : UInt8) (bytes : List UInt8) :
    (m.holding value bytes).OnTape size where
  size_eq := Array.size_setIfInBounds.trans h.size_eq
  pointer_nonneg := h.pointer_nonneg
  pointer_lt := h.pointer_lt

theorem toNat_pointer_lt (h : m.OnTape size) : m.pointer.toNat < m.tape.size := by
  have hnonneg := h.pointer_nonneg
  have hlt := h.pointer_lt_size
  omega

theorem cell?_holding (h : m.OnTape size) (value : UInt8) (bytes : List UInt8) :
    (m.holding value bytes).cell? = some value := by
  have hheld := h.holding value bytes
  rw [cell?_eq_bind, slot?_of_nonneg hheld.pointer_nonneg hheld.pointer_lt_size]
  exact Array.getElem?_setIfInBounds_self_of_lt h.toNat_pointer_lt

theorem holding_self (h : m.OnTape size) (hcell : m.cell? = some value) :
    m.holding value [] = m := by
  have hget : m.tape[m.pointer.toNat]? = some value := by
    rwa [cell?_eq_bind, slot?_of_nonneg h.pointer_nonneg h.pointer_lt_size] at hcell
  obtain ⟨hlt, rfl⟩ := Array.getElem?_eq_some_iff.mp hget
  simp [Machine.holding, Array.setIfInBounds, hlt]

theorem setCell_holding (h : m.OnTape size) {i : Fin (m.holding value bytes).tape.size}
    (hi : slot? (m.holding value bytes).tape.size m.pointer = some i) (value' : UInt8) :
    (m.holding value bytes).setCell i value' = m.holding value' bytes := by
  have hval : i.val = m.pointer.toNat := (h.holding value bytes).val_slot hi
  simp [Machine.setCell, Machine.holding, hval, Array.setIfInBounds, h.toNat_pointer_lt]

theorem apply_holding (h : m.OnTape size) (value : UInt8) (bytes : List UInt8) {c : Command}
    (hc : c = .increment ∨ c = .decrement ∨ c = .write) :
    (m.holding value bytes).apply c = .finished (m.holding
      (value + UInt8.ofInt (c.delta?.getD 0)) (bytes ++ if c = .write then [value] else [])) := by
  have hcell := h.cell?_holding value bytes
  have hadd {delta : Int} (hdelta : c.delta? = some delta) : (m.holding value bytes).apply c =
      .finished (m.holding (value + UInt8.ofInt delta) bytes) := by
    obtain ⟨i, hi⟩ := (h.holding value bytes).exists_slot
    rw [(Effect.add hdelta hi hcell).apply_eq, h.setCell_holding hi]
  rcases hc with rfl | rfl | rfl
  · rw [hadd rfl, if_neg (by decide), List.append_nil]
    rfl
  · rw [hadd rfl, if_neg (by decide), List.append_nil]
    rfl
  · have hdelta : Command.write.delta?.getD 0 = 0 := rfl
    rw [(Effect.write hcell).apply_eq, hdelta, add_ofInt_zero]
    simp [Machine.holding]

/-- A row of additions and writes adds its total to the cell, whatever the cell holds. -/
theorem applyAll_holding (h : m.OnTape size) (value : UInt8) (bytes : List UInt8)
    {cs : List Command} (hcs : ∀ c ∈ cs, c = .increment ∨ c = .decrement ∨ c = .write) :
    (m.holding value bytes).applyAll cs = .finished (m.holding
      (value + UInt8.ofInt (Command.total cs)) (bytes ++ Command.writtenFrom value cs)) := by
  induction cs generalizing value bytes with
  | nil => simp [applyAll, Command.total, Command.writtenFrom, add_ofInt_zero]
  | cons c cs ih =>
    have hfirst := h.apply_holding value bytes (hcs c List.mem_cons_self)
    have hrest := ih (value + UInt8.ofInt (c.delta?.getD 0))
      (bytes ++ if c = .write then [value] else []) fun c' hc' ↦ hcs c' (List.mem_cons_of_mem c hc')
    simp only [applyAll, hfirst, hrest, Command.total, Command.writtenFrom, UInt8.ofInt_add,
      UInt8.add_assoc, List.append_assoc]

theorem applyAll_of_cell? (h : m.OnTape size) {cs : List Command}
    (hcs : ∀ c ∈ cs, c = .increment ∨ c = .decrement ∨ c = .write) (hcell : m.cell? = some value) :
    m.applyAll cs = .finished (m.holding (value + UInt8.ofInt (Command.total cs))
      (Command.writtenFrom value cs)) := by
  have hrow := h.applyAll_holding value [] hcs
  rwa [h.holding_self hcell, List.nil_append] at hrow

end OnTape
end Machine

/-! ### Passes -/

namespace Execution

variable {m m' : Machine} {size : Nat} {value : UInt8} {cs : List Command}

theorem performs_commands {e : Execution} {rest : Program}
    (hahead : e.cursor.ahead = cs.map .command ++ rest)
    (hall : e.machine.applyAll cs = .finished m') :
    ∃ cursor : Cursor, cursor.ahead = rest ∧ e.Performs cs ⟨cursor, e.frames, m'⟩ := by
  induction cs generalizing e with
  | nil =>
    obtain rfl : e.machine = m' := Outcome.finished.inj hall
    exact ⟨e.cursor, hahead, .refl e⟩
  | cons c cs ih =>
    have hcommand : e.command? = some c := by
      rw [command?, hahead]
      rfl
    cases happly : e.machine.apply c with
    | failed fault m₁ => simp [Machine.applyAll, happly] at hall
    | finished m₁ =>
      rw [Machine.applyAll, happly] at hall
      have hstep : e.step = .next ⟨e.cursor.next, e.frames, m₁⟩ := by
        rw [step_of_command hcommand, happly, advance]
      have hnext : e.cursor.next.ahead = cs.map .command ++ rest := congrArg List.tail hahead
      obtain ⟨cursor, hcursor, hperforms⟩ :=
        ih (e := ⟨e.cursor.next, e.frames, m₁⟩) hnext hall
      refine ⟨cursor, hcursor, ?_⟩
      have hwhole := Performs.next hstep hperforms
      rwa [hcommand] at hwhole

/-- One pass: from the test of the loop through its body to the next test. -/
theorem performs_pass (hcell : m.cell? = some value) (hvalue : value ≠ 0)
    (hall : m.applyAll cs = .finished m') :
    (start [.loop (cs.map .command)] m).Performs cs (start [.loop (cs.map .command)] m') := by
  have henter : (start [.loop (cs.map .command)] m).step =
      .next ⟨.start (cs.map .command), [.start [.loop (cs.map .command)]], m⟩ := by
    simp only [step, start, Cursor.start, hcell, if_neg hvalue]
  obtain ⟨cursor, hcursor, hbody⟩ := performs_commands
    (e := ⟨.start (cs.map .command), [.start [.loop (cs.map .command)]], m⟩)
    (List.append_nil _).symm hall
  have hleave : (Execution.mk cursor [.start [.loop (cs.map .command)]] m').step =
      .next (start [.loop (cs.map .command)] m') := by
    simp only [step, hcursor]
    rfl
  have hback : (Execution.mk cursor [.start [.loop (cs.map .command)]] m').Performs []
      (start [.loop (cs.map .command)] m') := by
    have hlast := Performs.next hleave (.refl _)
    rwa [command?, hcursor] at hlast
  have hpass := Performs.next henter (hbody.trans hback)
  rwa [List.append_nil] at hpass

/-- As long as the cell has not been zero between two passes there is another one, and what the
cell holds after it is one more total further on. -/
theorem performs_passes (hm : m.OnTape size)
    (hcs : ∀ c ∈ cs, c = .increment ∨ c = .decrement ∨ c = .write)
    (hcell : m.cell? = some value) (k : Nat)
    (hvalue : ∀ i < k, value + UInt8.ofInt (i * Command.total cs) ≠ 0) :
    (start [.loop (cs.map .command)] m).Performs (List.replicate k cs).flatten
      (start [.loop (cs.map .command)] (m.holding (value + UInt8.ofInt (k * Command.total cs))
        (Command.writtenInPasses value cs k))) := by
  induction k with
  | zero =>
    have hstart : m.holding (value + UInt8.ofInt ((0 : Nat) * Command.total cs))
        (Command.writtenInPasses value cs 0) = m := by
      rw [Int.natCast_zero, Int.zero_mul, Machine.add_ofInt_zero]
      exact hm.holding_self hcell
    rw [hstart]
    exact .refl _
  | succ k ih =>
    have hbefore := ih fun i hi ↦ hvalue i (Nat.lt_succ_of_lt hi)
    have hpass := performs_pass (hm.cell?_holding _ (Command.writtenInPasses value cs k))
      (hvalue k (Nat.lt_succ_self k)) (hm.applyAll_holding _ _ hcs)
    have hsum : value + UInt8.ofInt (k * Command.total cs) + UInt8.ofInt (Command.total cs) =
        value + UInt8.ofInt ((k + 1 : Nat) * Command.total cs) := by
      rw [UInt8.add_assoc, ← UInt8.ofInt_add, Int.natCast_succ, Int.add_mul, Int.one_mul]
    rw [hsum, ← Command.writtenInPasses_succ] at hpass
    have hwhole := hbefore.trans hpass
    rwa [List.replicate_succ', List.flatten_append, List.flatten_singleton]

/-- At a zero the loop is passed over, and the program is over. -/
theorem exists_last_of_cell?_zero (body : Program) (hcell : m.cell? = some 0) :
    ∃ last, (start [.loop body] m).Performs [] last ∧ last.machine = m ∧
      last.step = .stop (.finished m) := by
  have hpass : (start [.loop body] m).step = .next ⟨(Cursor.start [.loop body]).next, [], m⟩ := by
    simp only [step, start, Cursor.start, hcell, if_pos]
  exact ⟨_, .next hpass (.refl _), rfl, rfl⟩

end Execution

/-! ### Coming to a zero -/

namespace Machine

theorem add_ofInt_eq_zero_iff {value : UInt8} {delta : Int} :
    value + UInt8.ofInt delta = 0 ↔ (256 : Int) ∣ value.toNat + delta := by
  rw [← UInt8.toNat_inj, UInt8.toNat_zero, Int.dvd_iff_emod_eq_zero, ← toNat_add_ofInt]
  exact Int.natCast_eq_zero.symm

/-- Steps of one size lead from a number to a multiple of 256 if the number is a multiple of what
the size and 256 have in common. -/
theorem exists_dvd_add_mul_iff {n : Nat} {delta : Int} :
    (∃ k : Nat, (256 : Int) ∣ n + k * delta) ↔ Int.gcd delta 256 ∣ n := by
  rw [Int.gcd_dvd_iff]
  constructor
  · rintro ⟨k, y, hy⟩
    exact ⟨-k, y, by grind⟩
  · rintro ⟨x, y, hxy⟩
    -- The coefficient may have either sign. Its remainder is a number of steps that does as well.
    have hk : (((-x % 256).toNat : Nat) : Int) = -x % 256 :=
      Int.toNat_of_nonneg (Int.emod_nonneg _ (by decide))
    have hdiv := Int.mul_ediv_add_emod (-x) 256
    refine ⟨(-x % 256).toNat, y - -x / 256 * delta, ?_⟩
    rw [hk, hxy]
    grind

end Machine

namespace Program

variable {p : Program} {m : Machine} {size : Nat} {value : UInt8} {cs : List Command}

theorem endsWith_of_reaches {last : Execution} {o : Outcome}
    (hreaches : (Execution.start p m).Reaches last) (hstop : last.step = .stop o) :
    p.EndsWith m o.ending :=
  endsWith_iff_stopsWith.mpr
    ⟨o, Transition.stopsWith_iff_reaches.mpr ⟨last, hreaches, hstop⟩, rfl⟩

theorem runsForever_iff_not_exists_endsWith :
    p.RunsForever m ↔ ¬ ∃ ending, p.EndsWith m ending := by
  simp only [runsForever_iff, endsWith_iff]
  constructor
  · rintro hnone ⟨ending, o, hyields, -⟩
    exact hnone o hyields
  · intro hnone o hyields
    exact hnone ⟨_, o, hyields, rfl⟩

/-- A counting loop that stops has come to a zero between two passes. -/
theorem Yields.exists_dvd {o : Outcome} (hyields : Yields [.loop (cs.map .command)] m o)
    (hm : m.OnTape size) (hcs : ∀ c ∈ cs, c = .increment ∨ c = .decrement ∨ c = .write)
    (hcell : m.cell? = some value) :
    ∃ k : Nat, (256 : Int) ∣ value.toNat + k * Command.total cs := by
  -- On the passes: each brings the cell one total closer to the zero that ends the loop.
  generalize hp : [Instruction.loop (cs.map .command)] = p at hyields
  induction hyields generalizing value with
  | nil => cases hp
  | command => cases hp
  | commandFails => cases hp
  | loopNoCell hnone => exact absurd (hcell.symm.trans hnone) (by simp)
  | loopDone hzero =>
    obtain rfl := Option.some.inj (hcell.symm.trans hzero)
    exact ⟨0, by simp⟩
  | loopAgain _ _ hbody _ _ ih =>
    cases hp
    have hpass := yields_commands_iff.mp hbody
    rw [hm.applyAll_of_cell? hcs hcell, Outcome.finished.injEq] at hpass
    subst hpass
    obtain ⟨k, hk⟩ := ih (hm.holding _ _) (hm.cell?_holding _ _) rfl
    refine ⟨k + 1, ?_⟩
    have hsum := Machine.toNat_add_ofInt value (Command.total cs)
    have hmul : ((k + 1 : Nat) : Int) * Command.total cs =
        k * Command.total cs + Command.total cs := by
      rw [Int.natCast_succ, Int.add_mul, Int.one_mul]
    omega
  | loopFails _ _ hbody =>
    cases hp
    have hpass := yields_commands_iff.mp hbody
    rw [hm.applyAll_of_cell? hcs hcell] at hpass
    cases hpass

end Program

/-- A loop that comes to a zero makes the passes up to it and ends there. -/
theorem Execution.exists_last_of_isLeast {m : Machine} {size : Nat} (hm : m.OnTape size)
    {cs : List Command} (hcs : ∀ c ∈ cs, c = .increment ∨ c = .decrement ∨ c = .write)
    {value : UInt8} (hcell : m.cell? = some value) {k : Nat}
    (hk : IsLeast {k : Nat | (256 : Int) ∣ value.toNat + k * Command.total cs} k) :
    ∃ last, (start [.loop (cs.map .command)] m).Performs (List.replicate k cs).flatten last ∧
      last.machine = m.holding 0 (Command.writtenInPasses value cs k) ∧
      last.step = .stop (.finished last.machine) := by
  have hvalue (i : Nat) (hi : i < k) : value + UInt8.ofInt (i * Command.total cs) ≠ 0 := by
    intro hzero
    exact Nat.not_lt.mpr (hk.2 (Machine.add_ofInt_eq_zero_iff.mp hzero)) hi
  have hpasses := performs_passes hm hcs hcell k hvalue
  rw [Machine.add_ofInt_eq_zero_iff.mpr hk.1] at hpasses
  obtain ⟨last, hexit, hmachine, hstop⟩ := exists_last_of_cell?_zero (cs.map .command)
    (hm.cell?_holding 0 (Command.writtenInPasses value cs k))
  refine ⟨last, ?_, hmachine, by rw [hstop, hmachine]⟩
  have hwhole := hpasses.trans hexit
  rwa [List.append_nil] at hwhole

/-- If multiples of the total bring the cell to zero, the loop ends at the first of them. -/
theorem Program.exists_endsWith_of_exists_dvd {m : Machine} {size : Nat} (hm : m.OnTape size)
    {cs : List Command} (hcs : ∀ c ∈ cs, c = .increment ∨ c = .decrement ∨ c = .write)
    {value : UInt8} (hcell : m.cell? = some value)
    (hzero : ∃ k : Nat, (256 : Int) ∣ value.toNat + k * Command.total cs) :
    ∃ k last, IsLeast {k : Nat | (256 : Int) ∣ value.toNat + k * Command.total cs} k ∧
      (Execution.start [.loop (cs.map .command)] m).Performs (List.replicate k cs).flatten last ∧
      last.step = .stop (.finished last.machine) ∧
      EndsWith [.loop (cs.map .command)] m
        ⟨none, m.tape.setIfInBounds m.pointer.toNat 0, m.pointer, m.input,
          m.output ++ (Command.writtenInPasses value cs k).toArray⟩ := by
  have hleast : IsLeast {k : Nat | (256 : Int) ∣ value.toNat + k * Command.total cs}
      (Nat.find hzero) := ⟨Nat.find_spec hzero, fun k hk ↦ Nat.find_min' hzero hk⟩
  obtain ⟨last, hperforms, hmachine, hstop⟩ :=
    Execution.exists_last_of_isLeast hm hcs hcell hleast
  have hends := endsWith_of_reaches hperforms.reaches hstop
  rw [hmachine] at hends
  exact ⟨_, last, hleast, hperforms, hstop, hends⟩

/-- A loop whose body only adds and writes, from a machine whose pointer is on its tape. It stops
if the cell is zero or a multiple of what the total of the body and 256 have in common, and
otherwise runs for ever. It stops after as many passes as it takes, at the least, to bring the
cell to a multiple of 256 between two passes; what the cell holds during a pass does not
matter. The cell is zero then, and the output has grown by what each pass writes that starts
from the value that the passes before it leave, as the body alone writes it from that value. -/
theorem counting_loop_stops_iff_gcd {m : Machine} {size : Nat} (hm : m.OnTape size)
    {cs : List Command} (hcs : ∀ c ∈ cs, c = .increment ∨ c = .decrement ∨ c = .write)
    {value : UInt8} (hcell : m.cell? = some value) :
    ((∃ ending, Program.EndsWith [.loop (cs.map .command)] m ending) ↔
        value = 0 ∨ Int.gcd (Command.total cs) 256 ∣ value.toNat) ∧
      (Program.RunsForever [.loop (cs.map .command)] m ↔
        ¬ (value = 0 ∨ Int.gcd (Command.total cs) 256 ∣ value.toNat)) ∧
      (256 ∣ Command.total cs → value ≠ 0 →
        Program.RunsForever [.loop (cs.map .command)] m) ∧
      (∀ ending, Program.EndsWith [.loop (cs.map .command)] m ending → ∃ k last,
        IsLeast {k : Nat | (256 : Int) ∣ value.toNat + k * Command.total cs} k ∧
        (Execution.start [.loop (cs.map .command)] m).Performs
          (List.replicate k cs).flatten last ∧
        last.step = .stop (.finished last.machine) ∧
        ending = ⟨none, m.tape.setIfInBounds m.pointer.toNat 0, m.pointer, m.input,
          m.output ++ (Command.writtenInPasses value cs k).toArray⟩) ∧
      ∀ v, Program.EndsWith (cs.map .command) (m.holding v [])
        ⟨none, m.tape.setIfInBounds m.pointer.toNat (v + UInt8.ofInt (Command.total cs)),
          m.pointer, m.input, m.output ++ (Command.writtenFrom v cs).toArray⟩ := by
  have hgcd : (∃ k : Nat, (256 : Int) ∣ value.toNat + k * Command.total cs) ↔
      value = 0 ∨ Int.gcd (Command.total cs) 256 ∣ value.toNat := by
    rw [Machine.exists_dvd_add_mul_iff, or_iff_right_of_imp]
    rintro rfl
    exact Nat.dvd_zero _
  have hzero {ending : Ending} (hends : Program.EndsWith [.loop (cs.map .command)] m ending) :
      ∃ k : Nat, (256 : Int) ∣ value.toNat + k * Command.total cs := by
    obtain ⟨o, hyields, -⟩ := Program.endsWith_iff.mp hends
    exact hyields.exists_dvd hm hcs hcell
  have hiff : (∃ ending, Program.EndsWith [.loop (cs.map .command)] m ending) ↔
      value = 0 ∨ Int.gcd (Command.total cs) 256 ∣ value.toNat := by
    rw [← hgcd]
    constructor
    · rintro ⟨ending, hends⟩
      exact hzero hends
    · intro hexists
      obtain ⟨k, last, -, -, -, hends⟩ :=
        Program.exists_endsWith_of_exists_dvd hm hcs hcell hexists
      exact ⟨_, hends⟩
  refine ⟨hiff, ?_, fun hdvd hne ↦ ?_, fun ending hends ↦ ?_, fun v ↦ ?_⟩
  · rw [Program.runsForever_iff_not_exists_endsWith, hiff]
  · rw [Program.runsForever_iff_not_exists_endsWith, hiff, ← hgcd]
    rintro ⟨k, hk⟩
    have hvalue : (256 : Int) ∣ value.toNat :=
      (Int.dvd_add_left (Int.dvd_mul_of_dvd_right hdvd)).mp hk
    have hlt : value.toNat < 256 := value.toNat_lt
    exact hne (UInt8.toNat_inj.mp (by rw [UInt8.toNat_zero]; omega))
  · obtain ⟨k, last, hleast, hperforms, hstop, hends'⟩ :=
      Program.exists_endsWith_of_exists_dvd hm hcs hcell (hzero hends)
    exact ⟨k, last, hleast, hperforms, hstop, hends.unique hends'⟩
  · have hrow := hm.applyAll_holding v [] hcs
    exact Program.endsWith_iff.mpr ⟨_, Program.yields_commands_iff.mpr hrow, rfl⟩

/-- A loop that goes through zero in the middle of its first pass and stops after its second, and
one that goes from one odd number to the next. -/
theorem counting_loop_stops_iff_gcd_through_zero :
    (⟨#[7, 2], 1, [9], #[5], [], true⟩ : Machine).OnTape 2 ∧
      (⟨#[7, 2], 1, [9], #[5], [], true⟩ : Machine).cell? = some 2 ∧
      Program.EndsWith
        [.loop ([Command.decrement, .decrement, .increment, .write].map .command)]
        ⟨#[7, 2], 1, [9], #[5], [], true⟩ ⟨none, #[7, 0], 1, [9], #[5, 1, 0]⟩ ∧
      Program.RunsForever [.loop ([Command.increment, .increment].map .command)]
        ⟨#[3], 0, [], #[], [], true⟩ := by
  have hm : (⟨#[7, 2], 1, [9], #[5], [], true⟩ : Machine).OnTape 2 :=
    ⟨rfl, by decide, by decide⟩
  have hcs : ∀ c ∈ [Command.decrement, .decrement, .increment, .write],
      c = .increment ∨ c = .decrement ∨ c = .write := by decide
  have hm' : (⟨#[3], 0, [], #[], [], true⟩ : Machine).OnTape 1 := ⟨rfl, by decide, by decide⟩
  have hcs' : ∀ c ∈ [Command.increment, .increment],
      c = .increment ∨ c = .decrement ∨ c = .write := by decide
  obtain ⟨hstops, -, -, hends, -⟩ := counting_loop_stops_iff_gcd hm hcs rfl
  obtain ⟨ending, hending⟩ := hstops.mpr (.inr (by decide))
  obtain ⟨k, last, hleast, -, -, rfl⟩ := hends ending hending
  obtain rfl : k = 2 := by
    have hle : k ≤ 2 := hleast.2 (by decide)
    have hdvd : (256 : Int) ∣ 2 + k * -1 := hleast.1
    omega
  exact ⟨hm, rfl, hending, (counting_loop_stops_iff_gcd hm' hcs' rfl).2.1.mpr (by decide)⟩

end Brainfuck
