import Brainfuck.Machine
import Brainfuck.Program.Builder

/-!
What is said about a failure of a program: the kind of failure, a line of text
and the position it concerns. A kind belongs to wider kinds, down to the one
that covers all of them.
-/

set_option autoImplicit false
set_option relaxedAutoImplicit false

namespace Brainfuck

/-- A failure of a program. The first three are general and carry their own text. -/
inductive Diagnostic where
  | general (text : String)
  | parse (text : String)
  | execution (text : String)
  | unmatchedEnd (position : Int)
  | unmatchedStart (position : Int)
  | inputExhausted
  | pointerOutOfBounds (target size : Int)
  deriving DecidableEq

namespace Diagnostic

/-- The name of the kind. -/
def label : Diagnostic → String
  | .general _ => "BrainfuckError"
  | .parse _ => "ParseError"
  | .execution _ => "ExecutionError"
  | .unmatchedEnd _ => "UnmatchedLoopEnd"
  | .unmatchedStart _ => "UnmatchedLoopStart"
  | .inputExhausted => "InputExhausted"
  | .pointerOutOfBounds _ _ => "PointerOutOfBounds"

def message : Diagnostic → String
  | .general text => text
  | .parse text => text
  | .execution text => text
  | .unmatchedEnd position => s!"Loop end at #{position} has no beginning"
  | .unmatchedStart position => s!"Loop starting at #{position} has no matching end"
  | .inputExhausted => "Input stream exhausted while reading a cell"
  | .pointerOutOfBounds target size =>
    s!"Pointer moved to {target} outside the tape (valid range 0..{size - 1})"

def position? : Diagnostic → Option Int
  | .general _ => none
  | .parse _ => none
  | .execution _ => none
  | .unmatchedEnd position => some position
  | .unmatchedStart position => some position
  | .inputExhausted => none
  | .pointerOutOfBounds target _ => some target

/-- The number of cells of the tape that the pointer left. -/
def tapeSize? : Diagnostic → Option Int
  | .pointerOutOfBounds _ size => some size
  | _ => none

/-- The kinds that a failure belongs to, in alphabetical order. -/
def kinds : Diagnostic → List String
  | .general _ => ["BrainfuckError"]
  | .parse _ => ["BrainfuckError", "ParseError"]
  | .execution _ => ["BrainfuckError", "ExecutionError"]
  | .unmatchedEnd _ => ["BrainfuckError", "ParseError", "UnmatchedLoopEnd"]
  | .unmatchedStart _ => ["BrainfuckError", "ParseError", "UnmatchedLoopStart"]
  | .inputExhausted => ["BrainfuckError", "ExecutionError", "InputExhausted"]
  | .pointerOutOfBounds _ _ => ["BrainfuckError", "ExecutionError", "PointerOutOfBounds"]

/-- Whether the failure is one of indexing. -/
def isIndexing : Diagnostic → Bool
  | .pointerOutOfBounds _ _ => true
  | _ => false

end Diagnostic

namespace ParseError

def diagnostic : ParseError → Diagnostic
  | .unmatchedEnd position => .unmatchedEnd position
  | .unmatchedStart position => .unmatchedStart position

end ParseError

namespace Fault

/-- A missing cell is no failure of the program: only a pointer that was put outside
the tape from without leads to it. -/
def diagnostic? : Fault → Option Diagnostic
  | .inputExhausted => some .inputExhausted
  | .pointerOutOfBounds target size => some (.pointerOutOfBounds target size)
  | .noCell _ => none

/-- The line of text of a fault. A pointer of 64 bits or more is not compared with the
tape at all. -/
def message : Fault → String
  | .inputExhausted => Diagnostic.inputExhausted.message
  | .pointerOutOfBounds target size => (Diagnostic.pointerOutOfBounds target size).message
  | .noCell pointer =>
    if -0x8000000000000000 ≤ pointer ∧ pointer < 0x8000000000000000 then
      "bytearray index out of range"
    else
      "cannot fit 'int' into an index-sized integer"

end Fault

end Brainfuck
