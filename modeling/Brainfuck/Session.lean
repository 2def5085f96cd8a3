import Brainfuck.Run

/-!
A session on one machine: actions one after another, each on the machine as
the one before left it, failed or not.
-/

set_option autoImplicit false
set_option relaxedAutoImplicit false

namespace Brainfuck

/-- How a tape is given: as a number of zeros or cell by cell. -/
inductive TapeSpec where
  | zeros (count : Int)
  | cells (values : List Int)

namespace TapeSpec

def tape : TapeSpec → Except Failure (Array UInt8)
  | .zeros count =>
    if count < 0 then .error .negativeCount else .ok (Array.replicate count.toNat 0)
  | .cells values =>
    match Text.Byte.ofInts? values with
    | some bytes => .ok bytes.toArray
    | none => .error .cellOutOfRange

end TapeSpec

/-- What a session starts from. The pointer is taken as it is. -/
structure Setup where
  input : List Int
  tape : TapeSpec
  pointer : Int
  flushable : Bool

namespace Setup

/-- The machine of a setup; the input is checked before the tape. -/
def machine (s : Setup) : Except Failure Machine :=
  match Text.Byte.ofInts? s.input with
  | none => .error .bytesOutOfRange
  | some input => s.tape.tape.map fun tape ↦ ⟨tape, s.pointer, input, #[], [], s.flushable⟩

end Setup

inductive Action where
  | move (offset : Int)
  | add (delta : Int)
  | write
  | read
  | cell
  /-- Reads a source text and runs it. -/
  | interpret (source : String)
  | execute (p : Program)
  | poke (index value : Int)
  | goto (pointer : Int)
  | feed (bytes : List Int)

/-- What an action leaves: the machine, the failure if there was one, and the cell if it
was asked for. -/
structure Report where
  machine : Machine
  failure : Option Failure
  cell : Option UInt8

namespace Report

def done (m : Machine) : Report := ⟨m, none, none⟩

def refused (failure : Failure) (m : Machine) : Report := ⟨m, some failure, none⟩

def ofOutcome : Outcome → Report
  | .finished m => done m
  | .failed fault m => refused (.fault fault) m

end Report

namespace Machine

/-- The cell under the pointer, as an answer. -/
def inspect (m : Machine) : Report :=
  match m.cell? with
  | some value => ⟨m, none, some value⟩
  | none => .refused (.fault (.noCell m.pointer)) m

/-- Sets a cell; the value is checked before the index. -/
def poke (index value : Int) (m : Machine) : Report :=
  match Text.Byte.ofInt? value with
  | none => .refused .cellOutOfRange m
  | some byte =>
    match slot? m.tape.size index with
    | some i => .done (m.setCell i byte)
    | none => .refused (.fault (.noCell index)) m

/-- Appends to the input. -/
def feed (bytes : List Int) (m : Machine) : Report :=
  match Text.Byte.ofInts? bytes with
  | some bytes => .done { m with input := m.input ++ bytes }
  | none => .refused .bytesOutOfRange m

/-- Carries out one action; `none` if it runs a program for which `fuel` does not
suffice. -/
def perform (fuel : Nat) (m : Machine) : Action → Option Report
  | .move offset => some (.ofOutcome (m.move offset))
  | .add delta => some (.ofOutcome (m.add delta))
  | .write => some (.ofOutcome m.write)
  | .read => some (.ofOutcome m.read)
  | .cell => some m.inspect
  | .interpret source =>
    match parseSource source with
    | .ok p => (Brainfuck.execute fuel p m).map .ofOutcome
    | .error error => some (.refused (.parse error) m)
  | .execute p => (Brainfuck.execute fuel p m).map .ofOutcome
  | .poke index value => some (m.poke index value)
  | .goto pointer => some (.done { m with pointer := pointer })
  | .feed bytes => some (m.feed bytes)

end Machine

end Brainfuck
