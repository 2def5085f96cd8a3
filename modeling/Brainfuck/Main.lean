import Brainfuck.CommandLine

/-!
The program itself: it finds the source file, runs it between standard input
and standard output, and ends with the status of the run. Standard input is
not touched before the source has been parsed.
-/

set_option autoImplicit false
set_option relaxedAutoImplicit false

namespace Brainfuck.CommandLine

/-- More steps than any run can take. -/
def unlimited : Nat := 1 <<< 62

/-- The number of an operating system error, which some calls report negated. -/
def errorNumber (code : UInt32) : UInt32 :=
  if code < 0x80000000 then code else 0 - code

/-- What kept a file from being read. A directory in place of a file and a file in place of a
directory differ in the number of the error alone. -/
def readErrorOf : IO.Error → ReadError
  | .inappropriateType _ code _ => if errorNumber code == 21 then .isDirectory else .notFound
  | .invalidArgument _ code _ => if errorNumber code == 36 then .nameTooLong else .notFound
  | .permissionDenied _ _ details => .refused details
  | _ => .notFound

/-- Writes what a call has to say and gives its status. -/
def report (exit : Exit) : IO UInt32 := do
  let stdout ← IO.getStdout
  stdout.write ⟨exit.output.toArray⟩
  stdout.flush
  IO.eprint exit.complaint
  return UInt32.ofNat exit.status

/-- All of standard input, in pieces. -/
partial def readInput (read : ByteArray) : IO ByteArray := do
  let piece ← (← IO.getStdin).read 4096
  if piece.isEmpty then return read else readInput (read ++ piece)

/-- The content of a file of the system. -/
def readFile (path : String) : IO (Except ReadError (List UInt8)) := do
  match ← (IO.FS.readBinFile (Path.ofText path).text).toBaseIO with
  | .error error => return .error (readErrorOf error)
  | .ok content => return .ok content.toList

def mainWith (arguments : List String) : IO UInt32 := do
  let plan ← plan readFile arguments
  let input ← if plan.runs then readInput ByteArray.empty else pure ByteArray.empty
  match plan.exit unlimited input.toList with
  | some exit => report exit
  | none => return 1

end Brainfuck.CommandLine

def main (arguments : List String) : IO UInt32 :=
  Brainfuck.CommandLine.mainWith arguments
