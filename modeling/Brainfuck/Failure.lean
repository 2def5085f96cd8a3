import Brainfuck.Diagnostic
import Brainfuck.Text.Quoted

/-!
Why an operation of the library refuses: the program failed, or a value handed
in is not what the operation takes.
-/

set_option autoImplicit false
set_option relaxedAutoImplicit false

namespace Brainfuck

inductive Failure where
  | parse (error : ParseError)
  | fault (fault : Fault)
  /-- A number in a list of bytes is not a byte. -/
  | bytesOutOfRange
  /-- A number for a cell is not a byte. -/
  | cellOutOfRange
  /-- A tape cannot have fewer than no cells. -/
  | negativeCount
  | unknownName (name : String)
  | unknownSymbol (text : String)
  deriving DecidableEq

namespace Failure

def diagnostic? : Failure → Option Diagnostic
  | .parse error => some error.diagnostic
  | .fault f => f.diagnostic?
  | _ => none

def message : Failure → String
  | .parse error => error.diagnostic.message
  | .fault f => f.message
  | .bytesOutOfRange => "bytes must be in range(0, 256)"
  | .cellOutOfRange => "byte must be in range(0, 256)"
  | .negativeCount => "negative count"
  | .unknownName name => name
  | .unknownSymbol text => Text.Quoted.quote text ++ " is not a valid Opcode"

end Failure

namespace Opcode

/-- The opcode that a text of one symbol stands for. -/
def ofText (text : String) : Except Failure Opcode :=
  match ofText? text with
  | some o => .ok o
  | none => .error (.unknownSymbol text)

def ofName (name : String) : Except Failure Opcode :=
  match ofName? name with
  | some o => .ok o
  | none => .error (.unknownName name)

end Opcode

namespace Command

def ofName (name : String) : Except Failure Command :=
  match ofName? name with
  | some c => .ok c
  | none => .error (.unknownName name)

end Command

end Brainfuck
