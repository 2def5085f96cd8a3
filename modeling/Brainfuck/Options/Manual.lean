import Brainfuck.Options.Reading

/-!
What a program says about its own command line: the full help when it is asked
for, the usage and a line of complaint when the arguments are wrong.
-/

set_option autoImplicit false
set_option relaxedAutoImplicit false

namespace Brainfuck.Options

structure Manual where
  program : String
  usage : String
  /-- The help, without the usage that it begins with. -/
  details : String

/-- What is left to say when a program ends before doing its work. -/
structure Notice where
  status : Nat
  output : String
  complaint : String

namespace Manual

def notice (m : Manual) : Stop → Notice
  | .help => ⟨0, m.usage ++ m.details, ""⟩
  | .refused error => ⟨2, "", m.usage ++ m.program ++ ": error: " ++ error.message ++ "\n"⟩

end Manual

end Brainfuck.Options
