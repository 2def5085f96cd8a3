import Brainfuck.Program

/-!
Building the tree of an opcode sequence in one pass. The loops that are still
open wait on a list of frames, innermost first; a frame holds where its loop
began and the instructions around it. A closing bracket with no open loop is
reported where it stands; a loop still open at the end is reported where the
outermost one began.
-/

set_option autoImplicit false
set_option relaxedAutoImplicit false

namespace Brainfuck

/-- A bracket without a partner; positions count opcodes, not characters. -/
inductive ParseError where
  | unmatchedEnd (position : Nat)
  | unmatchedStart (position : Nat)
  deriving DecidableEq

/-- Where the bracket is that has no partner. -/
def ParseError.position : ParseError → Nat
  | .unmatchedEnd position => position
  | .unmatchedStart position => position

/-- An open loop: where it began, and the instructions before it in the body
around it, newest first. -/
structure Frame where
  start : Nat
  enclosing : List Instruction

/-- What the opcodes read so far have built. The current body is kept newest first. -/
structure Builder where
  count : Nat
  frames : List Frame
  body : List Instruction

namespace Builder

def empty : Builder := ⟨0, [], []⟩

/-- Takes one more opcode. -/
def push (b : Builder) : Opcode → Except ParseError Builder
  | .command c => .ok ⟨b.count + 1, b.frames, .command c :: b.body⟩
  | .loopBegin => .ok ⟨b.count + 1, ⟨b.count, b.body⟩ :: b.frames, []⟩
  | .loopEnd =>
    match b.frames with
    | [] => .error (.unmatchedEnd b.count)
    | frame :: frames =>
      .ok ⟨b.count + 1, frames, .loop b.body.reverse :: frame.enclosing⟩

/-- The program that was read, if every loop is closed. -/
def finish (b : Builder) : Except ParseError Program :=
  match b.frames.getLast? with
  | some outermost => .error (.unmatchedStart outermost.start)
  | none => .ok b.body.reverse

end Builder

/-- The tree of an opcode sequence. -/
def parse (opcodes : List Opcode) : Except ParseError Program := do
  (← opcodes.foldlM Builder.push Builder.empty).finish

/-- The tree of a source text. -/
def parseSource (source : String) : Except ParseError Program :=
  parse (scan source)

end Brainfuck
