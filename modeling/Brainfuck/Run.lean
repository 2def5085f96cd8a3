import Brainfuck.Execution
import Brainfuck.Failure
import Brainfuck.Text.Byte

/-!
Running a source text on a fresh machine and keeping what it writes.
-/

set_option autoImplicit false
set_option relaxedAutoImplicit false

namespace Brainfuck

/-- The bytes that a program writes on a fresh machine, unless it fails. -/
def runProgram (fuel : Nat) (p : Program) (input : List UInt8) :
    Option (Except Fault (List UInt8)) :=
  (execute fuel p (.fresh input)).map fun
    | .finished m => .ok m.output.toList
    | .failed fault _ => .error fault

/-- The bytes that a source text writes. The source is read first, then the input is
checked, and only then does anything run. -/
def run (fuel : Nat) (source : String) (input : List Int) :
    Option (Except Failure (List UInt8)) :=
  match parseSource source with
  | .error error => some (.error (.parse error))
  | .ok p =>
    match Text.Byte.ofInts? input with
    | none => some (.error .bytesOutOfRange)
    | some bytes =>
      (runProgram fuel p bytes).map fun
        | .ok output => .ok output
        | .error fault => .error (.fault fault)

end Brainfuck
