import Brainfuck.Proofs.Lockstep
import Brainfuck.Proofs.OnTape

/-!
Runs on a longer tape. A run cannot tell whether there are cells in front of its tape or
behind it until it moves over an end: up to there it runs in lockstep with the run on the
padded tape, whose pointer is as much further on as there are cells in front
(`Machine.OnTape.apply_pad`). A move over an end fails on the padded tape too if
there is no padding at that end (`Fault.Persists`). So the size of the tape matters
only through the fault of leaving it (`padded_tape_ends_alike`).
-/

set_option autoImplicit false
set_option relaxedAutoImplicit false

namespace Brainfuck

variable {left right : List UInt8}

/-- The same fault on a tape with `left` cells more in front and `right` cells more behind. -/
def Fault.pad (left right : List UInt8) : Fault → Fault
  | .pointerOutOfBounds target size =>
    .pointerOutOfBounds (left.length + target) (left.length + size + right.length)
  | fault => fault

/-- The fault happens on the padded tape too: where a move leaves the tape there is no padding. -/
def Fault.Persists (left right : List UInt8) : Fault → Prop
  | .pointerOutOfBounds target size => (target < 0 → left = []) ∧ (size ≤ target → right = [])
  | _ => True

namespace Machine

/-- The same machine on a tape with `left` in front and `right` behind. The pointer names the
cell that it named before. -/
def pad (left right : List UInt8) (m : Machine) : Machine :=
  { m with
    tape := left.toArray ++ m.tape ++ right.toArray
    pointer := left.length + m.pointer }

@[simp] theorem size_tape_pad (m : Machine) :
    (m.pad left right).tape.size = left.length + m.tape.size + right.length := by
  simp [pad, Nat.add_assoc]

theorem flush_pad (m : Machine) : (m.pad left right).flush = m.flush.pad left right := by
  by_cases hflushable : m.flushable = true
  · simp [flush, pad, hflushable]
  · simp [flush, pad, hflushable]

/-- Where a cell of the tape is on the padded tape. -/
def padIndex {m : Machine} (left right : List UInt8) (i : Fin m.tape.size) :
    Fin (m.pad left right).tape.size :=
  ⟨left.length + i, by have := i.isLt; rw [size_tape_pad]; omega⟩

theorem setCell_padIndex {m : Machine} (i : Fin m.tape.size) (byte : UInt8) :
    (m.pad left right).setCell (padIndex left right i) byte =
      (m.setCell i byte).pad left right := by
  simp [pad, setCell, padIndex]

namespace OnTape

variable {m : Machine} {size : Nat}

theorem slot?_pad (h : m.OnTape size) {i : Fin m.tape.size}
    (hi : slot? m.tape.size m.pointer = some i) :
    slot? (m.pad left right).tape.size (m.pad left right).pointer =
      some (padIndex left right i) := by
  have hnonneg := h.pointer_nonneg
  have hlt := h.pointer_lt_size
  have hpointer : (m.pad left right).pointer = left.length + m.pointer := rfl
  rw [slot?_of_nonneg (by omega) (by rw [size_tape_pad]; omega), Option.some.injEq]
  apply Fin.ext
  simp only [padIndex, hpointer, h.val_slot hi]
  omega

theorem cell?_pad (h : m.OnTape size) (left right : List UInt8) :
    (m.pad left right).cell? = m.cell? := by
  obtain ⟨i, hi⟩ := h.exists_slot
  rw [cell?_of_slot? hi, cell?_of_slot? (h.slot?_pad hi)]
  simp [pad, padIndex]

/-- A command does on the padded tape what it does without padding, up to the padding. -/
theorem apply_pad (h : m.OnTape size) {c : Command}
    (hpersists : ∀ fault, (m.apply c).fault? = some fault → fault.Persists left right) :
    (m.pad left right).apply c =
      (m.apply c).translate (Fault.pad left right) (pad left right) := by
  obtain ⟨i, hi⟩ := h.exists_slot
  have hcell := h.cell?_pad left right
  have heffect := m.effect_apply c
  generalize m.apply c = o at heffect hpersists ⊢
  have hmoved (offset : Int) :
      (m.pad left right).pointer + offset = left.length + (m.pointer + offset) :=
    Int.add_assoc _ _ _
  rw [apply_eq_iff]
  cases heffect with
  | @move _ offset hc htarget =>
    have hpadded : ({ m with pointer := m.pointer + offset } : Machine).pad left right =
        { m.pad left right with pointer := (m.pad left right).pointer + offset } := by
      rw [hmoved]
      rfl
    rw [Outcome.translate, hpadded]
    exact .move hc (by rw [hmoved, size_tape_pad]; omega)
  | @moveOver _ offset hc htarget =>
    obtain ⟨hleft, hright⟩ := hpersists _ rfl
    have hover : ¬ (0 ≤ (m.pad left right).pointer + offset ∧
        (m.pad left right).pointer + offset < (m.pad left right).tape.size) := by
      rw [hmoved, size_tape_pad]
      intro hpadded
      by_cases hfront : m.pointer + offset < 0
      · simp only [hleft hfront, List.length_nil] at hpadded
        omega
      · simp only [hright (by omega), List.length_nil] at hpadded
        omega
    have heffect := Effect.moveOver hc hover
    rw [hmoved, size_tape_pad] at heffect
    exact heffect
  | add hc hslot hvalue =>
    rw [Outcome.translate, ← setCell_padIndex]
    exact .add hc (h.slot?_pad hslot) (hcell.trans hvalue)
  | write hvalue => exact .write (hcell.trans hvalue)
  | read hinput hslot =>
    have heffect := Effect.read (m := m.pad left right) hinput (h.slot?_pad hslot)
    rw [setCell_padIndex] at heffect
    exact heffect
  | readNothing hinput => exact .readNothing hinput
  | addNoCell hc hslot => exact absurd (hslot.symm.trans hi) (by simp)
  | readNoCell hinput hslot => exact absurd (hslot.symm.trans hi) (by simp)
  | writeNoCell hnone => exact absurd (hnone.symm.trans (cell?_of_slot? hi)) (by simp)

end OnTape

end Machine

/-! ### Runs -/

namespace Execution

/-- The pointer is on the tape, and if the run stops with a fault the fault persists. -/
def Fits (left right : List UInt8) (size : Nat) (e : Execution) : Prop :=
  e.machine.OnTape size ∧ ∀ fuel o, e.runFor fuel = some o →
    ∀ fault, o.fault? = some fault → fault.Persists left right

theorem lockstep_pad (left right : List UInt8) (size : Nat) :
    Lockstep (Fault.pad left right) (Machine.pad left right) (Fits left right size) where
  next := by
    intro e e' he hstep
    refine ⟨onTape_of_step he.1 hstep, fun fuel o hrun ↦ he.2 (fuel + 1) o ?_⟩
    rw [runFor, hstep]
    exact hrun
  cell := by
    intro e he
    obtain ⟨value, hvalue⟩ := he.1.exists_cell
    exact ⟨value, hvalue, (he.1.cell?_pad left right).trans hvalue⟩
  apply := by
    intro e c he hcommand
    refine he.1.apply_pad fun fault hfault ↦ he.2 1 (e.machine.apply c) ?_ fault hfault
    rw [runFor, step_of_command hcommand]
    cases happly : e.machine.apply c with
    | finished m => simp [happly, Outcome.fault?] at hfault
    | failed fault m => rfl

end Execution

/-- What the run leaves, on the padded tape. -/
def Ending.pad (left right : List UInt8) (ending : Ending) : Ending :=
  { ending with
    tape := left.toArray ++ ending.tape ++ right.toArray
    pointer := left.length + ending.pointer }

theorem Outcome.ending_translate_pad (o : Outcome) :
    (o.translate (Fault.pad left right) (Machine.pad left right)).ending =
      { o.ending.pad left right with fault? := o.fault?.map (Fault.pad left right) } := by
  cases o <;> rfl

/-- A run whose fault persists, if it has one, goes on the padded tape as it goes without the
padding, step for step. -/
theorem execute_pad {m : Machine} {size : Nat} (hm : m.OnTape size) (left right : List UInt8)
    {p : Program} (hpersists : ∀ fuel o, execute fuel p m = some o →
      ∀ fault, o.fault? = some fault → fault.Persists left right) (fuel : Nat) :
    execute fuel p (m.pad left right) =
      (execute fuel p m).map (·.translate (Fault.pad left right) (Machine.pad left right)) := by
  refine (Execution.lockstep_pad left right size).execute_eq Machine.flush_pad fuel ⟨hm, ?_⟩
  intro fuel o hrun fault hfault
  refine hpersists fuel (o.map Machine.flush) ?_ fault ?_
  · rw [execute, hrun, Option.map_some]
  · rw [← hfault]
    cases o <;> rfl

/-- A run that ends, with a fault that persists if there is one, ends alike on the padded
tape. -/
theorem Program.EndsWith.pad {m : Machine} {size : Nat} {p : Program} {ending : Ending}
    (hends : p.EndsWith m ending) (hm : m.OnTape size) (left right : List UInt8)
    (hpersists : ∀ fault, ending.fault? = some fault → fault.Persists left right) :
    p.EndsWith (m.pad left right)
      { ending.pad left right with fault? := ending.fault?.map (Fault.pad left right) } := by
  have hall (fuel : Nat) (o : Outcome) (hexecute : execute fuel p m = some o) :
      ∀ fault, o.fault? = some fault → fault.Persists left right := by
    have hsame : o.ending = ending := Program.EndsWith.unique ⟨fuel, o, hexecute, rfl⟩ hends
    rw [← hsame] at hpersists
    exact hpersists
  obtain ⟨fuel, o, hexecute, rfl⟩ := hends
  refine ⟨fuel, _, ?_, o.ending_translate_pad⟩
  rw [execute_pad hm left right hall fuel, hexecute, Option.map_some]

/-- The size of the tape matters only where a run leaves it. From a machine whose pointer is on
a tape of `size` cells, a run that comes to a good end or lacks input ends alike when there
are more cells in front of the tape and behind it: these stay as they are, and the pointer
is as much further on as there are cells in front. A run that goes on for ever does so on
the padded tape. A run that leaves the tape at an end without padding leaves the padded tape
there. -/
theorem padded_tape_ends_alike {m : Machine} {size : Nat} (hm : m.OnTape size) (p : Program)
    (left right : List UInt8) :
    (∀ ending, p.EndsWith m ending →
        ending.fault? = none ∨ ending.fault? = some .inputExhausted →
        p.EndsWith (m.pad left right) (ending.pad left right)) ∧
      (p.RunsForever m → p.RunsForever (m.pad left right)) ∧
      (∀ ending, p.EndsWith m ending →
        ending.fault? = some (.pointerOutOfBounds size size) →
        p.EndsWith (m.pad left [])
          { ending.pad left [] with
            fault? := some (.pointerOutOfBounds (left.length + size) (left.length + size)) }) ∧
      ∀ ending, p.EndsWith m ending → ending.fault? = some (.pointerOutOfBounds (-1) size) →
        p.EndsWith (m.pad [] right)
          { ending.pad [] right with
            fault? := some (.pointerOutOfBounds (-1) (size + right.length)) } := by
  refine ⟨?_, ?_, ?_, ?_⟩
  · intro ending hends hfault
    have hsame : ending.fault?.map (Fault.pad left right) = ending.fault? := by
      rcases hfault with hnone | hinput
      · rw [hnone, Option.map_none]
      · rw [hinput]
        rfl
    have hpadded := hends.pad hm left right (by
      intro fault hsome
      rcases hfault with hnone | hinput
      · exact absurd (hnone.symm.trans hsome) (by simp)
      · obtain rfl := Option.some.inj (hinput.symm.trans hsome)
        trivial)
    rw [hsame] at hpadded
    exact hpadded
  · intro hforever fuel
    have hpadded := execute_pad hm left right (p := p)
      (fun fuel o hexecute ↦ by simp [hforever fuel] at hexecute) fuel
    rw [hpadded, hforever fuel, Option.map_none]
  · intro ending hends hfault
    have hpadded := hends.pad hm left [] (by
      intro fault hsome
      obtain rfl := Option.some.inj (hfault.symm.trans hsome)
      exact ⟨fun hneg ↦ absurd hneg (by omega), fun _ ↦ rfl⟩)
    rw [hfault] at hpadded
    exact hpadded
  · intro ending hends hfault
    have hpadded := hends.pad hm [] right (by
      intro fault hsome
      obtain rfl := Option.some.inj (hfault.symm.trans hsome)
      exact ⟨fun _ ↦ rfl, fun hle ↦ absurd hle (by omega)⟩)
    rw [hfault, Option.map_some, Fault.pad, List.length_nil, Nat.zero_add] at hpadded
    exact hpadded

/-- On a tape of two cells: a run to a good end, padded on either side; a move over the right
end, padded in front; a move over the left end, padded behind. -/
theorem padded_tape_ends_alike_two_cells :
    (⟨#[0, 0], 0, [5], #[], [], true⟩ : Machine).OnTape 2 ∧
      Program.EndsWith [.command .read, .loop [.command .write, .command .moveRight]]
        ⟨#[9, 0, 0, 8], 1, [5], #[], [], true⟩ ⟨none, #[9, 5, 0, 8], 2, [], #[5]⟩ ∧
      Program.EndsWith [.command .moveRight, .command .moveRight]
        ⟨#[9, 0, 0], 1, [5], #[], [], true⟩
        ⟨some (.pointerOutOfBounds 3 3), #[9, 0, 0], 2, [5], #[]⟩ ∧
      Program.EndsWith [.command .moveLeft] ⟨#[0, 0, 8], 0, [5], #[], [], true⟩
        ⟨some (.pointerOutOfBounds (-1) 3), #[0, 0, 8], 0, [5], #[]⟩ := by
  have hm : (⟨#[0, 0], 0, [5], #[], [], true⟩ : Machine).OnTape 2 :=
    ⟨rfl, by decide, by decide⟩
  have hread : Program.EndsWith [.command .read, .loop [.command .write, .command .moveRight]]
      ⟨#[0, 0], 0, [5], #[], [], true⟩ ⟨none, #[5, 0], 1, [], #[5]⟩ :=
    ⟨7, _, rfl, rfl⟩
  have hover : Program.EndsWith [.command .moveRight, .command .moveRight]
      ⟨#[0, 0], 0, [5], #[], [], true⟩
      ⟨some (.pointerOutOfBounds 2 2), #[0, 0], 1, [5], #[]⟩ :=
    ⟨3, _, rfl, rfl⟩
  have hback : Program.EndsWith [.command .moveLeft] ⟨#[0, 0], 0, [5], #[], [], true⟩
      ⟨some (.pointerOutOfBounds (-1) 2), #[0, 0], 0, [5], #[]⟩ :=
    ⟨2, _, rfl, rfl⟩
  exact ⟨hm, (padded_tape_ends_alike hm _ [9] [8]).1 _ hread (.inl rfl),
    (padded_tape_ends_alike hm _ [9] []).2.2.1 _ hover rfl,
    (padded_tape_ends_alike hm _ [] [8]).2.2.2 _ hback rfl⟩

end Brainfuck
