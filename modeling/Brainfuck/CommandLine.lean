import Brainfuck.CommandLine.FileTree
import Brainfuck.Diagnostic
import Brainfuck.Execution
import Brainfuck.Options.Manual
import Brainfuck.Text.LineBreak
import Brainfuck.Text.Utf8

/-!
The command line: it takes the path of a source file and runs what is in it
between standard input and standard output. Whatever goes wrong is one line on
standard error and the exit status 1; a command line that cannot be understood
has the status 2.
-/

set_option autoImplicit false
set_option relaxedAutoImplicit false

namespace Brainfuck.CommandLine

/-- How the program ends, and what it has written and left unread by then. -/
structure Exit where
  status : Nat
  output : List UInt8
  complaint : String
  unread : List UInt8
  /-- A fault that no line has been written about, because no program is to blame for it. -/
  uncaught : Option Fault

/-- Why there is no program to run. -/
inductive SourceError where
  | unreadable (error : ReadError)
  | undecodable (defect : Text.Utf8.Defect)
  | unparsable (error : ParseError)

namespace SourceError

/-- The line about a source file, which is named as it was given. -/
def message (path : String) : SourceError → String
  | .unreadable .notFound => s!"Source file not found: {path}"
  | .unreadable (.refused reason) => s!"Cannot read source file {path}: {reason}"
  | .undecodable defect => s!"Source file {path} is not valid UTF-8: " ++ defect.reason
  | .unparsable error => "Parse error: " ++ error.diagnostic.message

end SourceError

def grammar : Options.Grammar Unit where
  options := [⟨["-h", "--help"], .help⟩]
  positional := some "source"

def manual : Options.Manual where
  program := "treebf"
  usage := "usage: treebf [-h] source\n"
  details := "\nRun a Brainfuck program against stdin/stdout\n\n" ++
    "positional arguments:\n  source      Path to the Brainfuck source file\n\n" ++
    "options:\n  -h, --help  show this help message and exit\n"

/-- The path of the source file, or what to say instead. -/
def sourcePath (arguments : List String) : Except Options.Notice String :=
  match Options.read grammar () arguments with
  | .ok (_, some path) => .ok path
  | .ok (_, none) => .error (manual.notice (.refused (.required "source")))
  | .error stop => .error (manual.notice stop)

/-- The text of a source file, with a line feed for every line break. -/
def decodeSource (content : List UInt8) : Except SourceError String :=
  match Text.Utf8.decode content with
  | .ok text => .ok (String.ofList (Text.LineBreak.unify text))
  | .error defect => .error (.undecodable defect)

/-- The program in a source file. -/
def loadProgram (content : List UInt8) : Except SourceError Program := do
  (parseSource (← decodeSource content)).mapError .unparsable

/-- The end of a call whose source file holds no program. Nothing has been read. -/
def refusal (path : String) (error : SourceError) (input : List UInt8) : Exit :=
  ⟨1, [], error.message path ++ "\n", input, none⟩

/-- The end of a run. -/
def exitOf : Outcome → Exit
  | .finished m => ⟨0, m.output.toList, "", m.input, none⟩
  | .failed fault m =>
    match fault.diagnostic? with
    | some d => ⟨1, m.output.toList, "Runtime error: " ++ d.message ++ "\n", m.input, none⟩
    | none => ⟨1, m.output.toList, "", m.input, some fault⟩

/-- Runs a program between the input and the output. -/
def runProgram (fuel : Nat) (p : Program) (input : List UInt8) : Option Exit :=
  (execute fuel p (.fresh input)).map exitOf

/-- The end of a call that is not about running anything. -/
def exitOfNotice (notice : Options.Notice) (input : List UInt8) : Exit :=
  ⟨notice.status, notice.output.toUTF8.toList, notice.complaint, input, none⟩

/-- What a call comes to once its arguments and its source file have been looked at. -/
inductive Plan where
  /-- There is nothing to run, and no need for the input but to hand it back. -/
  | stop (ending : List UInt8 → Exit)
  | run (p : Program)

namespace Plan

def runs : Plan → Bool
  | .stop _ => false
  | .run _ => true

/-- The end of a call; `none` if `fuel` does not suffice for the run. -/
def exit (fuel : Nat) (input : List UInt8) : Plan → Option Exit
  | .stop ending => some (ending input)
  | .run p => runProgram fuel p input

end Plan

/-- The plan for the content of a source file. -/
def planContent (path : String) (content : List UInt8) : Plan :=
  match loadProgram content with
  | .error error => .stop (refusal path error)
  | .ok p => .run p

/-- The plan of a call, among any files: they are only read, at most once, and not before the
arguments have been understood. -/
def plan {m : Type → Type} [Monad m] (read : String → m (Except ReadError (List UInt8)))
    (arguments : List String) : m Plan :=
  match sourcePath arguments with
  | .error notice => pure (.stop (exitOfNotice notice))
  | .ok path => do
    match ← read path with
    | .error error => pure (.stop (refusal path (.unreadable error)))
    | .ok content => pure (planContent path content)

/-- A whole call of the program; `none` if `fuel` does not suffice for the run. -/
def invoke (fuel : Nat) (read : Reader) (arguments : List String) (input : List UInt8) :
    Option Exit :=
  (Id.run (plan read arguments)).exit fuel input

end Brainfuck.CommandLine
