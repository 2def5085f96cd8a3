import Brainfuck.Machine
import Brainfuck.Program.Builder

/-!
Running a program on a machine, step by step. A run has a cursor in the
current body and a frame for every loop around it. The frame stands at its own
loop, so that leaving the body returns to the loop and tests its cell again.
A run may go on for ever; `runFor` bounds the number of steps and says so when
they do not suffice.
-/

set_option autoImplicit false
set_option relaxedAutoImplicit false

namespace Brainfuck

/-- A place in a body. What lies ahead is stored with the index, so that a step need
not count its way there. -/
structure Cursor where
  body : Program
  index : Nat
  ahead : Program
  ahead_eq : ahead = body.drop index

namespace Cursor

def start (body : Program) : Cursor := ⟨body, 0, body, rfl⟩

def next (c : Cursor) : Cursor :=
  ⟨c.body, c.index + 1, c.ahead.tail, by simp [c.ahead_eq]⟩

end Cursor

/-- A run between two steps. -/
structure Execution where
  cursor : Cursor
  /-- The loops that the run is inside of, innermost first. -/
  frames : List Cursor
  machine : Machine

/-- What a step leads to: another state of the run, or the end of it. -/
inductive Transition (σ : Type) where
  | next (s : σ)
  | stop (o : Outcome)

namespace Execution

def start (p : Program) (m : Machine) : Execution := ⟨.start p, [], m⟩

/-- One step: leave a body, enter or pass a loop, or carry out a command. -/
def step (e : Execution) : Transition Execution :=
  match e.cursor.ahead with
  | [] =>
    match e.frames with
    | [] => .stop (.finished e.machine)
    | frame :: frames => .next ⟨frame, frames, e.machine⟩
  | .loop body :: _ =>
    match e.machine.cell? with
    | none => .stop (.failed (.noCell e.machine.pointer) e.machine)
    | some value =>
      if value = 0 then
        .next ⟨e.cursor.next, e.frames, e.machine⟩
      else
        .next ⟨.start body, e.cursor :: e.frames, e.machine⟩
  | .command c :: _ =>
    match e.machine.apply c with
    | .finished m => .next ⟨e.cursor.next, e.frames, m⟩
    | .failed fault m => .stop (.failed fault m)

/-- Takes steps until the run stops; `none` if `fuel` steps do not suffice. -/
def runFor : Nat → Execution → Option Outcome
  | 0, _ => none
  | fuel + 1, e =>
    match e.step with
    | .next e => runFor fuel e
    | .stop o => some o

end Execution

/-- Runs a program on a machine, and flushes its output once at the end, also after a
fault. -/
def execute (fuel : Nat) (p : Program) (m : Machine) : Option Outcome :=
  ((Execution.start p m).runFor fuel).map (·.map Machine.flush)

end Brainfuck
