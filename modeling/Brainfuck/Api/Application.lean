import Brainfuck.Diagnostic
import Brainfuck.Json
import Brainfuck.Program.Traversal
import Brainfuck.Run
import Brainfuck.Text.Byte
import Brainfuck.Text.Quoted

/-!
The server, apart from the framework that takes its requests and sends its
answers. There are two operations, one describes the tree of a source text and
the other runs it, and a check of the input that a run is given. An operation
returns something, or refuses with a status and a detail: 400 if the source
cannot be parsed, 409 if the run fails.
-/

set_option autoImplicit false
set_option relaxedAutoImplicit false

namespace Brainfuck.Api

/-- What the server says about a program that can be parsed. -/
structure ParseReport where
  opcodes : Nat
  commands : Nat
  loops : Nat
  depth : Nat
  text : String

/-- What an operation comes to. -/
inductive Result where
  | parsed (report : ParseReport)
  | ran (output : List UInt8)
  | refused (status : Nat) (detail : Json)
  /-- A failure that no program is to blame for. -/
  | crashed

/-- The fields of what an operation returns. -/
def Result.fields? : Result → Option (List (String × Json))
  | .parsed report =>
    some [("opcode_count", .integer report.opcodes), ("command_count", .integer report.commands),
      ("loop_count", .integer report.loops), ("nesting_depth", .integer report.depth),
      ("program", .string report.text)]
  | .ran output =>
    some [("output", .string (Text.Byte.toText output)),
      ("output_bytes", .array (output.map fun b ↦ .integer b.toNat))]
  | .refused _ _ => none
  | .crashed => none

/-- What a framework is given. An operation that is `none` does not come to an end. -/
structure Application where
  /-- What stands for an input that is left out. It is not checked. -/
  defaultInput : String
  /-- Lets an input pass, or says what is wrong with it. -/
  checkInput : String → Except String String
  parse : String → Option Result
  run : String → String → Option Result

/-- What is told about an error. -/
def errorDetail (d : Diagnostic) : Json :=
  .object [("error", .string d.label), ("message", .string d.message),
    ("position", (d.position?.map Json.integer).getD .null)]

/-- A text as the input of a run; the first character that is no byte is at fault. -/
def inputOfText (text : String) : Except String String :=
  match text.toList.find? fun c ↦ 255 < c.toNat with
  | some c =>
    .error ("input character " ++ Text.Quoted.quote (String.singleton c) ++
      " does not fit in a single byte")
  | none => .ok text

/-- Describes a source text. -/
def parseCode (code : String) : Result :=
  let opcodes := scan code
  match parse opcodes with
  | .error error => .refused 400 (errorDetail error.diagnostic)
  | .ok p => .parsed ⟨opcodes.length, p.commandCount, p.loopCount, p.nestingDepth, p.text⟩

/-- What the ending of a run comes to. -/
def ofRun : Except Failure (List UInt8) → Result
  | .ok output => .ran output
  | .error (.parse error) => .refused 400 (errorDetail error.diagnostic)
  | .error failure =>
    match failure.diagnostic? with
    | some d => .refused 409 (errorDetail d)
    | none => .crashed

/-- Runs a source text on the code points of an input. They have to be bytes, and are found
to be before the source is looked at. -/
def runCode (fuel : Nat) (code input : String) : Option Result :=
  match Text.Byte.ofText? input with
  | none => some .crashed
  | some bytes => (Brainfuck.run fuel code (bytes.map fun b ↦ (b.toNat : Int))).map ofRun

/-- The application of this server. Its runs take at most `fuel` steps. -/
def application (fuel : Nat) : Application where
  defaultInput := ""
  checkInput := inputOfText
  parse code := some (parseCode code)
  run := runCode fuel

end Brainfuck.Api
