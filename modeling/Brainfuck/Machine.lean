import Brainfuck.Opcode

/-!
The machine that programs act on: a tape of bytes, a pointer, the input that
is still unread and the output written so far. The pointer is any integer. A
move checks only where it arrives; every other operation needs a cell under
the pointer, and a negative pointer counts cells from the end of the tape.
-/

set_option autoImplicit false
set_option relaxedAutoImplicit false

namespace Brainfuck

structure Machine where
  tape : Array UInt8
  pointer : Int
  /-- The bytes that no read has taken yet. -/
  input : List UInt8
  output : Array UInt8
  /-- How many bytes had been written at each flush, newest first. -/
  flushes : List Nat
  /-- Whether the output has a flush at all. -/
  flushable : Bool

/-- Why an operation failed. -/
inductive Fault where
  | inputExhausted
  | pointerOutOfBounds (target : Int) (size : Nat)
  | noCell (pointer : Int)
  deriving DecidableEq

/-- How a run ends. Either way it leaves a machine. -/
inductive Outcome where
  | finished (m : Machine)
  | failed (fault : Fault) (m : Machine)

namespace Outcome

def machine : Outcome → Machine
  | .finished m => m
  | .failed _ m => m

def fault? : Outcome → Option Fault
  | .finished _ => none
  | .failed fault _ => some fault

/-- The same ending, with something done to the machine it leaves. -/
def map (f : Machine → Machine) : Outcome → Outcome
  | .finished m => .finished (f m)
  | .failed fault m => .failed fault (f m)

theorem machine_map (f : Machine → Machine) (o : Outcome) : (o.map f).machine = f o.machine := by
  cases o <;> rfl

end Outcome

/-- The cell that a pointer names on a tape of `size` cells: counted from the front,
or from the end if it is negative. -/
def slot? (size : Nat) (pointer : Int) : Option (Fin size) :=
  let index := if pointer < 0 then pointer + size else pointer
  if h : 0 ≤ index ∧ index < size then
    some ⟨index.toNat, by omega⟩
  else
    none

theorem slot?_of_nonneg {size : Nat} {pointer : Int} (hlow : 0 ≤ pointer)
    (hhigh : pointer < size) : slot? size pointer = some ⟨pointer.toNat, by omega⟩ := by
  simp [slot?, Int.not_lt.mpr hlow, hlow, hhigh]

/-- A negative pointer names the cell that it names when the size is added. -/
theorem slot?_of_neg {size : Nat} {pointer : Int} (hlow : -size ≤ pointer) (hhigh : pointer < 0) :
    slot? size pointer = slot? size (pointer + size) := by
  have hnonneg : ¬ pointer + size < 0 := by omega
  simp [slot?, hhigh, hnonneg]

theorem slot?_eq_none_iff {size : Nat} {pointer : Int} :
    slot? size pointer = none ↔ pointer < -size ∨ size ≤ pointer := by
  unfold slot?
  dsimp only
  split <;> split <;> simp <;> omega

namespace Machine

/-- The number of cells of a fresh tape. -/
def tapeSize : Nat := 1024

def fresh (input : List UInt8) : Machine :=
  ⟨Array.replicate tapeSize 0, 0, input, #[], [], true⟩

/-- The cell under the pointer. -/
def cell? (m : Machine) : Option UInt8 :=
  (slot? m.tape.size m.pointer).map fun i ↦ m.tape[i]

theorem cell?_of_slot? {m : Machine} {i : Fin m.tape.size}
    (hslot : slot? m.tape.size m.pointer = some i) : m.cell? = some m.tape[i] := by
  rw [cell?, hslot, Option.map_some]

/-- Puts a byte into a cell. -/
def setCell (m : Machine) (i : Fin m.tape.size) (byte : UInt8) : Machine :=
  { m with tape := m.tape.set i byte }

/-- Moves the pointer, if it stays on the tape. -/
def move (offset : Int) (m : Machine) : Outcome :=
  let target := m.pointer + offset
  if 0 ≤ target ∧ target < m.tape.size then
    .finished { m with pointer := target }
  else
    .failed (.pointerOutOfBounds target m.tape.size) m

/-- Adds to the cell, modulo 256. -/
def add (delta : Int) (m : Machine) : Outcome :=
  match slot? m.tape.size m.pointer with
  | some i => .finished (m.setCell i (m.tape[i] + UInt8.ofInt delta))
  | none => .failed (.noCell m.pointer) m

/-- Writes the cell to the output. -/
def write (m : Machine) : Outcome :=
  match m.cell? with
  | some value => .finished { m with output := m.output.push value }
  | none => .failed (.noCell m.pointer) m

/-- Puts the next input byte into the cell. The byte is taken before the cell is
looked for, so it is gone even if there is no cell. -/
def read (m : Machine) : Outcome :=
  match m.input with
  | [] => .failed .inputExhausted m
  | byte :: rest =>
    match slot? m.tape.size m.pointer with
    | some i => .finished { m.setCell i byte with input := rest }
    | none => .failed (.noCell m.pointer) { m with input := rest }

def flush (m : Machine) : Machine :=
  if m.flushable then { m with flushes := m.output.size :: m.flushes } else m

/-- A flush changes nothing but the record of flushes. -/
theorem flush_eq (m : Machine) : m.flush = { m with flushes := m.flush.flushes } := by
  by_cases hflushable : m.flushable = true
  · simp only [flush, if_pos hflushable]
  · simp only [flush, if_neg hflushable]

theorem cell?_flush (m : Machine) : m.flush.cell? = m.cell? := by
  rw [flush_eq]
  rfl

theorem tape_flush (m : Machine) : m.flush.tape = m.tape := by
  rw [flush_eq]

theorem pointer_flush (m : Machine) : m.flush.pointer = m.pointer := by
  rw [flush_eq]

theorem input_flush (m : Machine) : m.flush.input = m.input := by
  rw [flush_eq]

theorem output_flush (m : Machine) : m.flush.output = m.output := by
  rw [flush_eq]

/-- Carries out one command. -/
def apply (m : Machine) : Command → Outcome
  | .moveRight => m.move 1
  | .moveLeft => m.move (-1)
  | .increment => m.add 1
  | .decrement => m.add (-1)
  | .write => m.write
  | .read => m.read

end Machine

end Brainfuck
