/-!
The eight symbols of the language. Six of them are commands, which act on the
machine by themselves; the other two open and close a loop. Every other
character of a source text is a comment.
-/

set_option autoImplicit false
set_option relaxedAutoImplicit false

namespace Brainfuck

/-- A symbol that acts on the machine by itself. -/
inductive Command where
  | moveRight
  | moveLeft
  | increment
  | decrement
  | write
  | read
  deriving DecidableEq

/-- A symbol of the source: a command or one end of a loop. -/
inductive Opcode where
  | command (c : Command)
  | loopBegin
  | loopEnd
  deriving DecidableEq

namespace Command

def all : List Command :=
  [.moveRight, .moveLeft, .increment, .decrement, .write, .read]

def symbol : Command → Char
  | .moveRight => '>'
  | .moveLeft => '<'
  | .increment => '+'
  | .decrement => '-'
  | .write => '.'
  | .read => ','

def name : Command → String
  | .moveRight => "MOVE_RIGHT"
  | .moveLeft => "MOVE_LEFT"
  | .increment => "INCREMENT"
  | .decrement => "DECREMENT"
  | .write => "WRITE"
  | .read => "READ"

def ofName? (name : String) : Option Command :=
  all.find? fun c ↦ c.name == name

theorem mem_all (c : Command) : c ∈ all := by
  cases c <;> decide

end Command

namespace Opcode

def all : List Opcode :=
  Command.all.map .command ++ [.loopBegin, .loopEnd]

def symbol : Opcode → Char
  | .command c => c.symbol
  | .loopBegin => '['
  | .loopEnd => ']'

def name : Opcode → String
  | .command c => c.name
  | .loopBegin => "LOOP_BEGIN"
  | .loopEnd => "LOOP_END"

/-- The command of an opcode; the two ends of a loop have none. -/
def command? : Opcode → Option Command
  | .command c => some c
  | .loopBegin => none
  | .loopEnd => none

def ofSymbol? : Char → Option Opcode
  | '>' => some (.command .moveRight)
  | '<' => some (.command .moveLeft)
  | '+' => some (.command .increment)
  | '-' => some (.command .decrement)
  | '.' => some (.command .write)
  | ',' => some (.command .read)
  | '[' => some .loopBegin
  | ']' => some .loopEnd
  | _ => none

def ofName? (name : String) : Option Opcode :=
  all.find? fun o ↦ o.name == name

/-- Reads a text that is exactly one symbol. -/
def ofText? (text : String) : Option Opcode :=
  match text.toList with
  | [c] => ofSymbol? c
  | _ => none

theorem mem_all (o : Opcode) : o ∈ all := by
  cases o with
  | command c => cases c <;> decide
  | loopBegin => decide
  | loopEnd => decide

@[simp] theorem ofSymbol?_symbol (o : Opcode) : ofSymbol? o.symbol = some o := by
  cases o with
  | command c => cases c <;> rfl
  | loopBegin => rfl
  | loopEnd => rfl

theorem symbol_of_ofSymbol? {c : Char} {o : Opcode} (h : ofSymbol? c = some o) :
    o.symbol = c := by
  unfold ofSymbol? at h
  split at h <;> cases h <;> rfl

/-- Each opcode has one symbol, and no other character stands for it. -/
theorem ofSymbol?_eq_some_iff {c : Char} {o : Opcode} :
    ofSymbol? c = some o ↔ o.symbol = c :=
  ⟨symbol_of_ofSymbol?, fun h ↦ h ▸ ofSymbol?_symbol o⟩

end Opcode

/-- The opcodes of a source text, in order; comments are dropped. -/
def scan (source : String) : List Opcode :=
  source.toList.filterMap Opcode.ofSymbol?

end Brainfuck
