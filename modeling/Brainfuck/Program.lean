import Brainfuck.Opcode

/-!
Programs as trees. A program is a sequence of instructions, and a loop is an
instruction that owns the sequence between its brackets. The measures here
follow the tree; `Brainfuck.Program.Traversal` computes the same values with
an explicit list of pending bodies, so that no nesting is too deep for it.
-/

set_option autoImplicit false
set_option relaxedAutoImplicit false

namespace Brainfuck

inductive Instruction where
  | command (c : Command)
  | loop (body : List Instruction)

abbrev Program := List Instruction

mutual

/-- The number of commands, those in nested bodies included. -/
def Instruction.commands : Instruction → Nat
  | .command _ => 1
  | .loop body => Program.commands body

def Program.commands : Program → Nat
  | [] => 0
  | i :: p => i.commands + Program.commands p

end

mutual

/-- The number of loops, those in nested bodies included. -/
def Instruction.loops : Instruction → Nat
  | .command _ => 0
  | .loop body => 1 + Program.loops body

def Program.loops : Program → Nat
  | [] => 0
  | i :: p => i.loops + Program.loops p

end

mutual

/-- How many loops lie around the innermost body. -/
def Instruction.depth : Instruction → Nat
  | .command _ => 0
  | .loop body => 1 + Program.depth body

def Program.depth : Program → Nat
  | [] => 0
  | i :: p => max i.depth (Program.depth p)

end

mutual

/-- The opcodes that spell an instruction out. -/
def Instruction.opcodes : Instruction → List Opcode
  | .command c => [.command c]
  | .loop body => .loopBegin :: (Program.opcodes body ++ [.loopEnd])

def Program.opcodes : Program → List Opcode
  | [] => []
  | i :: p => i.opcodes ++ Program.opcodes p

end

namespace Program

/-- The symbols of a program, without comments. -/
def render (p : Program) : List Char :=
  (opcodes p).map Opcode.symbol

/-- Induction over a tree: a loop is reached from its body and from what follows it. -/
@[elab_as_elim]
theorem induction {motive : Program → Prop} (nil : motive [])
    (command : ∀ c p, motive p → motive (.command c :: p))
    (loop : ∀ body p, motive body → motive p → motive (.loop body :: p)) :
    ∀ p, motive p
  | [] => nil
  | .command c :: p => command c p (induction nil command loop p)
  | .loop body :: p =>
    loop body p (induction nil command loop body) (induction nil command loop p)

end Program

end Brainfuck
