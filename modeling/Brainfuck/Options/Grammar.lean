import Brainfuck.Text.Quoted

/-!
What a command line accepts: options, each with the strings it goes by and
what it does to the settings, and at most one positional argument.
-/

set_option autoImplicit false
set_option relaxedAutoImplicit false

namespace Brainfuck.Options

/-- Why the value of an option is refused. -/
inductive ValueError where
  | integer
  | choice (choices : List String)

/-- What an option does. A value is missing if it was given as the bare mark `--`. -/
inductive Effect (σ : Type) where
  | help
  | flag (set : σ → σ)
  | value (set : Option String → σ → Except (ValueError × String) σ)

structure OptionSpec (σ : Type) where
  strings : List String
  effect : Effect σ

namespace OptionSpec

/-- The name of an option in messages. -/
def label {σ : Type} (o : OptionSpec σ) : String :=
  "/".intercalate o.strings

def takesValue {σ : Type} (o : OptionSpec σ) : Bool :=
  match o.effect with
  | .value _ => true
  | _ => false

end OptionSpec

structure Grammar (σ : Type) where
  options : List (OptionSpec σ)
  /-- The name of the positional argument, which is required. -/
  positional : Option String

namespace Grammar

/-- The option strings in order, each with its option. -/
def strings {σ : Type} (g : Grammar σ) : List (String × OptionSpec σ) :=
  g.options.flatMap fun o ↦ o.strings.map fun text ↦ (text, o)

def find? {σ : Type} (g : Grammar σ) (text : String) : Option (OptionSpec σ) :=
  (g.strings.find? fun entry ↦ entry.1 == text).map (·.2)

end Grammar

/-- Why a command line is refused. -/
inductive UsageError where
  | required (name : String)
  | unrecognized (arguments : List String)
  | ambiguous (argument : String) (candidates : List String)
  | ignoredArgument (label text : String)
  | expectedArgument (label : String)
  | invalidInteger (label text : String)
  | invalidChoice (label text : String) (choices : List String)

namespace UsageError

def message : UsageError → String
  | .required name => s!"the following arguments are required: {name}"
  | .unrecognized arguments => "unrecognized arguments: " ++ " ".intercalate arguments
  | .ambiguous argument candidates =>
    s!"ambiguous option: {argument} could match " ++ ", ".intercalate candidates
  | .ignoredArgument label text =>
    s!"argument {label}: ignored explicit argument " ++ Text.Quoted.quote text
  | .expectedArgument label => s!"argument {label}: expected one argument"
  | .invalidInteger label text =>
    s!"argument {label}: invalid int value: " ++ Text.Quoted.quote text
  | .invalidChoice label text choices =>
    s!"argument {label}: invalid choice: " ++ Text.Quoted.quote text ++ " (choose from " ++
      ", ".intercalate (choices.map Text.Quoted.quote) ++ ")"

def ofValue (label : String) : ValueError × String → UsageError
  | (.integer, text) => .invalidInteger label text
  | (.choice choices, text) => .invalidChoice label text choices

end UsageError

end Brainfuck.Options
