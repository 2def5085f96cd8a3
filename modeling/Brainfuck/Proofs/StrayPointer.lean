import Brainfuck.Proofs.AbsentCommands

/-!
Pointers that are not on the tape. Nothing checks the pointer that a machine starts with, and a
move looks only at where it arrives, so a pointer that is off the tape stays there until a move
puts it on (`Machine.StaysOrLands`): no operation, run or session puts it anywhere else.

As long as it is off the tape there are two cases. A negative pointer that is not too low names
a cell counted from the end of the tape, and a program that does not move cannot tell it
from the pointer of that cell counted from the front (`Execution.lockstep_withPointer`). Any
other pointer names no cell. Then everything that needs one fails and changes nothing, except
that a read has taken its byte (`stray_pointer_stays_or_lands`).
-/

set_option autoImplicit false
set_option relaxedAutoImplicit false

namespace Brainfuck

namespace Machine

variable {m m' m'' : Machine}

/-- The same machine with its pointer elsewhere. -/
def withPointer (m : Machine) (pointer : Int) : Machine := { m with pointer := pointer }

/-! ### Where the pointer can be -/

/-- From `m` to `m'` the tape has kept its size, and the pointer has stayed or is on the tape. -/
structure StaysOrLands (m m' : Machine) : Prop where
  size_eq : m'.tape.size = m.tape.size
  pointer_or : m'.pointer = m.pointer ∨ 0 ≤ m'.pointer ∧ m'.pointer < m.tape.size

namespace StaysOrLands

theorem of_eq (hsize : m'.tape.size = m.tape.size) (hpointer : m'.pointer = m.pointer) :
    m.StaysOrLands m' :=
  ⟨hsize, .inl hpointer⟩

theorem trans (h : m.StaysOrLands m') (h' : m'.StaysOrLands m'') : m.StaysOrLands m'' where
  size_eq := h'.size_eq.trans h.size_eq
  pointer_or := by
    rcases h'.pointer_or with hstays | hlands
    · rw [hstays]
      exact h.pointer_or
    · rw [h.size_eq] at hlands
      exact .inr hlands

theorem move (m : Machine) (offset : Int) : m.StaysOrLands (m.move offset).machine := by
  unfold Machine.move
  by_cases htarget : 0 ≤ m.pointer + offset ∧ m.pointer + offset < m.tape.size
  · rw [if_pos htarget]
    exact ⟨rfl, .inr htarget⟩
  · rw [if_neg htarget]
    exact of_eq rfl rfl

theorem add (m : Machine) (delta : Int) : m.StaysOrLands (m.add delta).machine := by
  unfold Machine.add
  split
  · exact of_eq (Array.size_set (Fin.isLt _)) rfl
  · exact of_eq rfl rfl

theorem write (m : Machine) : m.StaysOrLands m.write.machine := by
  unfold Machine.write
  split
  · exact of_eq rfl rfl
  · exact of_eq rfl rfl

theorem read (m : Machine) : m.StaysOrLands m.read.machine := by
  unfold Machine.read
  split
  · exact of_eq rfl rfl
  · split
    · exact of_eq (Array.size_set (Fin.isLt _)) rfl
    · exact of_eq rfl rfl

theorem apply (m : Machine) (c : Command) : m.StaysOrLands (m.apply c).machine := by
  cases c with
  | moveRight => exact move m 1
  | moveLeft => exact move m (-1)
  | increment => exact add m 1
  | decrement => exact add m (-1)
  | write => exact write m
  | read => exact read m

/-- Whatever a run does, the pointer stays or lands. -/
theorem of_visits {p : Program} (hvisits : p.Visits m m') : m.StaysOrLands m' := by
  refine hvisits.invariant (P := m.StaysOrLands) ?_ ?_ (of_eq rfl rfl)
  · intro c _ m₁ hm₁
    exact hm₁.trans (apply m₁ c)
  · intro m₁ hm₁
    exact hm₁.trans (of_eq (congrArg Array.size m₁.tape_flush) m₁.pointer_flush)

theorem perform {a : Action} (ha : a.Ordinary) {fuel : Nat} {report : Report}
    (hperform : m.perform fuel a = some report) : m.StaysOrLands report.machine := by
  have houtcome (o : Outcome) : (Report.ofOutcome o).machine = o.machine := by
    cases o <;> rfl
  cases ha with
  | move offset =>
    obtain rfl := Option.some.inj hperform
    rw [houtcome]
    exact move m offset
  | add delta =>
    obtain rfl := Option.some.inj hperform
    rw [houtcome]
    exact add m delta
  | write =>
    obtain rfl := Option.some.inj hperform
    rw [houtcome]
    exact write m
  | read =>
    obtain rfl := Option.some.inj hperform
    rw [houtcome]
    exact read m
  | cell =>
    obtain rfl := Option.some.inj hperform
    unfold inspect
    split
    · exact of_eq rfl rfl
    · exact of_eq rfl rfl
  | feed bytes =>
    obtain rfl := Option.some.inj hperform
    unfold Machine.feed
    split
    · exact of_eq rfl rfl
    · exact of_eq rfl rfl
  | execute p =>
    obtain ⟨o, hexecute, rfl⟩ := Option.map_eq_some_iff.mp hperform
    rw [houtcome]
    exact of_visits (.stopped hexecute)

theorem session {actions : List Action} (hordinary : ∀ a ∈ actions, a.Ordinary)
    (hsession : m.Session actions m') : m.StaysOrLands m' := by
  induction hsession with
  | start => exact of_eq rfl rfl
  | perform _ a fuel hperform ih =>
    have hbefore := ih fun a' ha' ↦ hordinary a' (List.mem_append_left _ ha')
    obtain ⟨report, hreport, rfl⟩ := Option.map_eq_some_iff.mp hperform
    exact hbefore.trans (perform (hordinary a (by simp)) hreport)

theorem shows {actions : List Action} (hordinary : ∀ a ∈ actions, a.Ordinary)
    (hshows : m.Shows actions m') : m.StaysOrLands m' := by
  cases hshows with
  | between hsession => exact session hordinary hsession
  | running hsession hreaches =>
    exact (session hordinary hsession).trans (of_visits (.running hreaches))

end StaysOrLands

/-! ### Two pointers for one cell -/

theorem cell?_withPointer {pointer : Int}
    (hsame : slot? m.tape.size pointer = slot? m.tape.size m.pointer) :
    (m.withPointer pointer).cell? = m.cell? := by
  change (slot? m.tape.size pointer).map _ = _
  rw [hsame]
  rfl

/-- A command that does not move acts alike under two pointers for one cell. -/
theorem OnTape.effect_withPointer {size : Nat} (hm : m.OnTape size) {pointer : Int}
    (hsame : slot? m.tape.size pointer = slot? m.tape.size m.pointer) {c : Command} {o : Outcome}
    (h : m.Effect c o) (hleft : c ≠ .moveLeft) (hright : c ≠ .moveRight) :
    (m.withPointer pointer).Effect c (o.map (·.withPointer pointer)) := by
  have hcell := cell?_withPointer hsame
  obtain ⟨i, hi⟩ := hm.exists_slot
  have hmove {offset : Int} (hoffset : c.offset? = some offset) : False := by
    rcases Command.offset?_cases hoffset with ⟨rfl, -⟩ | ⟨rfl, -⟩
    · exact hright rfl
    · exact hleft rfl
  cases h with
  | move hoffset => exact (hmove hoffset).elim
  | moveOver hoffset => exact (hmove hoffset).elim
  | add hdelta hslot hvalue => exact .add hdelta (hsame.trans hslot) (hcell.trans hvalue)
  | write hvalue => exact .write (hcell.trans hvalue)
  | read hinput hslot => exact .read hinput (hsame.trans hslot)
  | readNothing hinput => exact .readNothing hinput
  | addNoCell hdelta hslot => exact absurd (hslot.symm.trans hi) (by simp)
  | readNoCell hinput hslot => exact absurd (hslot.symm.trans hi) (by simp)
  | writeNoCell hnone => exact absurd (hnone.symm.trans (cell?_of_slot? hi)) (by simp)

end Machine

namespace Execution

variable {p : Program} {m : Machine}

/-- A program that does not move runs in lockstep with itself when the pointer is counted from the
end of the tape. -/
theorem lockstep_withPointer (hleft : ¬ p.Has .moveLeft) (hright : ¬ p.Has .moveRight)
    {size : Nat} {pointer : Int} (hlow : -size ≤ pointer) (hneg : pointer < 0) :
    Lockstep id (·.withPointer pointer) fun e ↦
      (e.machine.OnTape size ∧ e.machine.pointer = pointer + size) ∧ e.DrawsOn p := by
  have hsame {m : Machine} (hm : m.OnTape size ∧ m.pointer = pointer + size) :
      slot? m.tape.size pointer = slot? m.tape.size m.pointer := by
    rw [hm.1.size_eq, hm.2]
    exact slot?_of_neg hlow hneg
  refine ⟨?_, ?_, ?_⟩
  · intro e e' he hstep
    have hle := he.2.le_pointer_step hleft
    have hge := he.2.pointer_step_le hright
    rw [hstep] at hle hge
    have hpointer : e'.machine.pointer = e.machine.pointer := Int.le_antisymm hge hle
    exact ⟨⟨onTape_of_step he.1.1 hstep, hpointer.trans he.1.2⟩, he.2.step hstep⟩
  · intro e he
    obtain ⟨value, hvalue⟩ := he.1.1.exists_cell
    exact ⟨value, hvalue, (Machine.cell?_withPointer (hsame he.1)).trans hvalue⟩
  · intro e c he hcommand
    have hc := he.2.has_of_command? hcommand
    rw [Outcome.translate_id]
    exact (he.1.1.effect_withPointer (hsame he.1) (e.machine.effect_apply c) (hc.ne hleft)
      (hc.ne hright)).apply_eq

end Execution

/-- A run that does not move ends alike under a pointer that counts from the end of the tape, and
leaves the pointer there. -/
theorem execute_of_pointer_neg {m : Machine} (hlow : -m.tape.size ≤ m.pointer)
    (hneg : m.pointer < 0) {p : Program} (hleft : ¬ p.Has .moveLeft)
    (hright : ¬ p.Has .moveRight) (fuel : Nat) :
    execute fuel p m = (execute fuel p (m.withPointer (m.pointer + m.tape.size))).map
      (·.map (·.withPointer m.pointer)) := by
  have honTape : (m.withPointer (m.pointer + m.tape.size)).OnTape m.tape.size := by
    refine ⟨rfl, ?_, ?_⟩
    · change 0 ≤ m.pointer + m.tape.size
      omega
    · change m.pointer + m.tape.size < m.tape.size
      omega
  have hflush (m' : Machine) :
      (m'.withPointer m.pointer).flush = m'.flush.withPointer m.pointer := by
    by_cases hflushable : m'.flushable = true
    · simp [Machine.flush, Machine.withPointer, hflushable]
    · simp [Machine.flush, Machine.withPointer, hflushable]
  exact (Execution.lockstep_withPointer hleft hright hlow hneg).execute_eq_map hflush fuel
    (m := m.withPointer (m.pointer + m.tape.size)) ⟨⟨honTape, rfl⟩, Execution.drawsOn_start p _⟩

/-- Wherever the pointer of a machine is, no operation, run or session leaves it anywhere but there
or on the tape. If it is negative and not too low, a program that does not move does what it
does under the pointer of the same cell counted from the front, and the pointer stays. If it
names no cell, then looking at the cell, adding, writing and the test of a loop fail and
change nothing, a read fails with its byte taken or for want of input, and a move
succeeds exactly if it arrives on the tape. -/
theorem stray_pointer_stays_or_lands (m : Machine) :
    (∀ actions : List Action, (∀ a ∈ actions, a.Ordinary) → ∀ m', m.Shows actions m' →
      m'.tape.size = m.tape.size ∧
        (m'.pointer = m.pointer ∨ 0 ≤ m'.pointer ∧ m'.pointer < m.tape.size)) ∧
      (-m.tape.size ≤ m.pointer → m.pointer < 0 →
        ∀ p : Program, ¬ p.Has .moveLeft → ¬ p.Has .moveRight →
          (∀ fuel, execute fuel p m =
            (execute fuel p (m.withPointer (m.pointer + m.tape.size))).map
              (·.map (·.withPointer m.pointer))) ∧
          ∀ m', p.Visits m m' → m'.pointer = m.pointer) ∧
      (m.pointer < -m.tape.size ∨ m.tape.size ≤ m.pointer →
        m.inspect = .refused (.fault (.noCell m.pointer)) m ∧
        (∀ delta, m.add delta = .failed (.noCell m.pointer) m) ∧
        m.write = .failed (.noCell m.pointer) m ∧
        (∀ e : Execution, e.machine = m → ∀ body rest, e.cursor.ahead = .loop body :: rest →
          e.step = .stop (.failed (.noCell m.pointer) m)) ∧
        (∀ byte rest, m.input = byte :: rest →
          m.read = .failed (.noCell m.pointer) (m.withInput rest)) ∧
        (m.input = [] → m.read = .failed .inputExhausted m) ∧
        ∀ offset,
          (0 ≤ m.pointer + offset ∧ m.pointer + offset < m.tape.size →
            m.move offset = .finished (m.withPointer (m.pointer + offset))) ∧
          (¬ (0 ≤ m.pointer + offset ∧ m.pointer + offset < m.tape.size) →
            m.move offset =
              .failed (.pointerOutOfBounds (m.pointer + offset) m.tape.size) m)) := by
  refine ⟨?_, ?_, fun hstray ↦ ?_⟩
  · intro actions hordinary m' hshows
    have h := Machine.StaysOrLands.shows hordinary hshows
    exact ⟨h.size_eq, h.pointer_or⟩
  · intro hlow hneg p hleft hright
    refine ⟨execute_of_pointer_neg hlow hneg hleft hright, fun m' hvisits ↦ ?_⟩
    exact Int.le_antisymm (hvisits.pointer_le hright) (hvisits.le_pointer hleft)
  · have hslot : slot? m.tape.size m.pointer = none := slot?_eq_none_iff.mpr hstray
    have hcell : m.cell? = none := by
      rw [Machine.cell?, hslot, Option.map_none]
    refine ⟨?_, fun delta ↦ ?_, ?_, ?_, ?_, ?_, fun offset ↦ ⟨?_, ?_⟩⟩
    · simp only [Machine.inspect, hcell]
    · simp only [Machine.add, hslot]
    · simp only [Machine.write, hcell]
    · rintro e rfl body rest hahead
      simp only [Execution.step, hahead, hcell]
    · intro byte rest hinput
      simp only [Machine.read, hinput, hslot, Machine.withInput]
    · intro hinput
      simp only [Machine.read, hinput]
    · intro htarget
      simp only [Machine.move, if_pos htarget, Machine.withPointer]
    · intro htarget
      simp only [Machine.move, if_neg htarget]

/-- A pointer that counts from the end: a loop runs on the last cell. And pointers that name no
cell: a read loses its byte, and a move of any length can come back onto the tape. -/
theorem stray_pointer_stays_or_lands_around_two_cells :
    (∀ c ∈ [Command.moveLeft, .moveRight],
        ¬ Program.Has [.loop [.command .write, .command .decrement]] c) ∧
      execute 10 [.loop [.command .write, .command .decrement]]
          ⟨#[5, 2], -1, [], #[], [], true⟩ =
        some (.finished ⟨#[5, 0], -1, [], #[2, 1], [2], true⟩) ∧
      (⟨#[5, 2], 2, [7, 8], #[], [], true⟩ : Machine).read =
        .failed (.noCell 2) ⟨#[5, 2], 2, [8], #[], [], true⟩ ∧
      (⟨#[5, 2], -3, [], #[], [], true⟩ : Machine).move 4 =
        .finished ⟨#[5, 2], 1, [], #[], [], true⟩ := by
  have habsent : ∀ c ∈ [Command.moveLeft, .moveRight],
      ¬ Program.Has [.loop [.command .write, .command .decrement]] c := by decide
  have hfront : execute 10 [.loop [.command .write, .command .decrement]]
      ⟨#[5, 2], 1, [], #[], [], true⟩ =
        some (.finished ⟨#[5, 0], 1, [], #[2, 1], [2], true⟩) := rfl
  obtain ⟨-, halias, -⟩ := stray_pointer_stays_or_lands ⟨#[5, 2], -1, [], #[], [], true⟩
  obtain ⟨-, -, hright⟩ := stray_pointer_stays_or_lands ⟨#[5, 2], 2, [7, 8], #[], [], true⟩
  obtain ⟨-, -, hleft⟩ := stray_pointer_stays_or_lands ⟨#[5, 2], -3, [], #[], [], true⟩
  refine ⟨habsent, ?_, ?_, ?_⟩
  · have hback := (halias (by decide) (by decide) _ (habsent .moveLeft (by decide))
      (habsent .moveRight (by decide))).1 10
    exact hback.trans (congrArg (Option.map (Outcome.map (·.withPointer (-1)))) hfront)
  · exact (hright (.inr (by decide))).2.2.2.2.1 7 [8] rfl
  · exact ((hleft (.inl (by decide))).2.2.2.2.2.2 4).1 (by decide)

end Brainfuck
