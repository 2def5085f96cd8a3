import Brainfuck.Machine

/-!
What a command can do to a machine, said once. Moving and adding come in two directions
each, which differ by a number; the rest of a command's work is decided by the tape, the
pointer and the next byte of the input. `Machine.apply_eq_iff` puts the cases beside the
function, so that what holds of every command can be shown by going through them.
-/

set_option autoImplicit false
set_option relaxedAutoImplicit false

namespace Brainfuck

namespace Command

/-- How far a command moves the pointer, if it is a move. -/
def offset? : Command → Option Int
  | .moveRight => some 1
  | .moveLeft => some (-1)
  | _ => none

/-- What a command adds to the cell, if it adds something. -/
def delta? : Command → Option Int
  | .increment => some 1
  | .decrement => some (-1)
  | _ => none

theorem offset?_cases {c : Command} {offset : Int} (hc : c.offset? = some offset) :
    (c = .moveRight ∧ offset = 1) ∨ (c = .moveLeft ∧ offset = -1) := by
  cases c with
  | moveRight => exact .inl ⟨rfl, (Option.some.inj hc).symm⟩
  | moveLeft => exact .inr ⟨rfl, (Option.some.inj hc).symm⟩
  | _ => cases hc

theorem delta?_cases {c : Command} {delta : Int} (hc : c.delta? = some delta) :
    (c = .increment ∧ delta = 1) ∨ (c = .decrement ∧ delta = -1) := by
  cases c with
  | increment => exact .inl ⟨rfl, (Option.some.inj hc).symm⟩
  | decrement => exact .inr ⟨rfl, (Option.some.inj hc).symm⟩
  | _ => cases hc

end Command

namespace Machine

/-- The outcomes of a command, each with what it takes for it. -/
inductive Effect (m : Machine) : Command → Outcome → Prop
  | move {c : Command} {offset : Int} (hc : c.offset? = some offset)
      (htarget : 0 ≤ m.pointer + offset ∧ m.pointer + offset < m.tape.size) :
      Effect m c (.finished { m with pointer := m.pointer + offset })
  | moveOver {c : Command} {offset : Int} (hc : c.offset? = some offset)
      (htarget : ¬ (0 ≤ m.pointer + offset ∧ m.pointer + offset < m.tape.size)) :
      Effect m c (.failed (.pointerOutOfBounds (m.pointer + offset) m.tape.size) m)
  | add {c : Command} {delta : Int} {i : Fin m.tape.size} {value : UInt8}
      (hc : c.delta? = some delta) (hslot : slot? m.tape.size m.pointer = some i)
      (hcell : m.cell? = some value) :
      Effect m c (.finished (m.setCell i (value + UInt8.ofInt delta)))
  | addNoCell {c : Command} {delta : Int} (hc : c.delta? = some delta)
      (hslot : slot? m.tape.size m.pointer = none) :
      Effect m c (.failed (.noCell m.pointer) m)
  | write {value : UInt8} (hcell : m.cell? = some value) :
      Effect m .write (.finished { m with output := m.output.push value })
  | writeNoCell (hcell : m.cell? = none) :
      Effect m .write (.failed (.noCell m.pointer) m)
  | read {byte : UInt8} {rest : List UInt8} {i : Fin m.tape.size}
      (hinput : m.input = byte :: rest) (hslot : slot? m.tape.size m.pointer = some i) :
      Effect m .read (.finished { m.setCell i byte with input := rest })
  | readNoCell {byte : UInt8} {rest : List UInt8} (hinput : m.input = byte :: rest)
      (hslot : slot? m.tape.size m.pointer = none) :
      Effect m .read (.failed (.noCell m.pointer) { m with input := rest })
  | readNothing (hinput : m.input = []) : Effect m .read (.failed .inputExhausted m)

theorem apply_of_offset? (m : Machine) {c : Command} {offset : Int}
    (hc : c.offset? = some offset) : m.apply c = m.move offset := by
  cases c <;> cases hc <;> rfl

theorem apply_of_delta? (m : Machine) {c : Command} {delta : Int}
    (hc : c.delta? = some delta) : m.apply c = m.add delta := by
  cases c <;> cases hc <;> rfl

theorem Effect.apply_eq {m : Machine} {c : Command} {o : Outcome} (h : m.Effect c o) :
    m.apply c = o := by
  cases h with
  | move hc htarget => rw [apply_of_offset? m hc, Machine.move, if_pos htarget]
  | moveOver hc htarget => rw [apply_of_offset? m hc, Machine.move, if_neg htarget]
  | add hc hslot hcell =>
    obtain rfl := Option.some.inj (hcell.symm.trans (cell?_of_slot? hslot))
    simp only [apply_of_delta? m hc, Machine.add, hslot]
  | addNoCell hc hslot => simp only [apply_of_delta? m hc, Machine.add, hslot]
  | write hcell => simp only [apply, Machine.write, hcell]
  | writeNoCell hcell => simp only [apply, Machine.write, hcell]
  | read hinput hslot => simp only [apply, Machine.read, hinput, hslot]
  | readNoCell hinput hslot => simp only [apply, Machine.read, hinput, hslot]
  | readNothing hinput => simp only [apply, Machine.read, hinput]

/-- Every command has one of the outcomes. -/
theorem exists_effect (m : Machine) (c : Command) : ∃ o, m.Effect c o := by
  have hmove {offset : Int} (hc : c.offset? = some offset) : ∃ o, m.Effect c o := by
    by_cases htarget : 0 ≤ m.pointer + offset ∧ m.pointer + offset < m.tape.size
    · exact ⟨_, .move hc htarget⟩
    · exact ⟨_, .moveOver hc htarget⟩
  have hadd {delta : Int} (hc : c.delta? = some delta) : ∃ o, m.Effect c o := by
    cases hslot : slot? m.tape.size m.pointer with
    | none => exact ⟨_, .addNoCell hc hslot⟩
    | some i => exact ⟨_, .add hc hslot (cell?_of_slot? hslot)⟩
  cases c with
  | moveRight => exact hmove rfl
  | moveLeft => exact hmove rfl
  | increment => exact hadd rfl
  | decrement => exact hadd rfl
  | write =>
    cases hcell : m.cell? with
    | none => exact ⟨_, .writeNoCell hcell⟩
    | some value => exact ⟨_, .write hcell⟩
  | read =>
    cases hinput : m.input with
    | nil => exact ⟨_, .readNothing hinput⟩
    | cons byte rest =>
      cases hslot : slot? m.tape.size m.pointer with
      | none => exact ⟨_, .readNoCell hinput hslot⟩
      | some i => exact ⟨_, .read hinput hslot⟩

/-- The outcome of a command is the one whose conditions hold. -/
theorem apply_eq_iff {m : Machine} {c : Command} {o : Outcome} :
    m.apply c = o ↔ m.Effect c o := by
  refine ⟨fun happly ↦ ?_, Effect.apply_eq⟩
  obtain ⟨o', ho'⟩ := m.exists_effect c
  obtain rfl : o' = o := ho'.apply_eq.symm.trans happly
  exact ho'

theorem effect_apply (m : Machine) (c : Command) : m.Effect c (m.apply c) :=
  apply_eq_iff.mp rfl

end Machine

end Brainfuck
