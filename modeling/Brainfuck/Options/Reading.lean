import Brainfuck.Options.Word

/-!
Acting on the words of a command line, left to right. Help ends the reading at
once, and so does the first thing that is wrong; arguments that nothing takes
are collected and complained about last.
-/

set_option autoImplicit false
set_option relaxedAutoImplicit false

namespace Brainfuck.Options

/-- Why a command line leads to no settings. -/
inductive Stop where
  | help
  | refused (error : UsageError)

/-- What has been read so far; the arguments that nothing took are kept newest first. -/
structure Reading (σ : Type) where
  settings : σ
  positional : Option String
  extras : List String

variable {σ : Type}

/-- Options of one letter may share a dash. The options before the last one take no
value; the last one comes with what is still attached to it. -/
def cluster (g : Grammar σ) (before : List (OptionSpec σ)) (spec : OptionSpec σ) :
    List Char → Except Stop (List (OptionSpec σ) × OptionSpec σ × Option String)
  | [] => .ok (before.reverse, spec, none)
  | c :: rest =>
    if spec.takesValue then
      .ok (before.reverse, spec, some (String.ofList (c :: rest)))
    else
      match g.find? (String.ofList ['-', c]) with
      | some next => cluster g (spec :: before) next rest
      | none => .error (.refused (.ignoredArgument spec.label (String.ofList (c :: rest))))

/-- Takes an option apart: the options that it stands for, and the text attached to the
last one. -/
def expand (g : Grammar σ) (string : String) (spec : OptionSpec σ) (attached : Option String) :
    Except Stop (List (OptionSpec σ) × OptionSpec σ × Option String) :=
  match attached with
  | none => .ok ([], spec, none)
  | some text =>
    if spec.takesValue then .ok ([], spec, some text)
    else if string.startsWith "--" || text.isEmpty then
      .error (.refused (.ignoredArgument spec.label text))
    else cluster g [] spec text.toList

/-- Settings after an option that takes no value. -/
def applyFlag (settings : σ) (spec : OptionSpec σ) : Except Stop σ :=
  match spec.effect with
  | .help => .error .help
  | .flag set => .ok (set settings)
  | .value _ => .ok settings

/-- Settings after an option with a value; the bare mark `--` counts as no value. -/
def applyValue (settings : σ) (spec : OptionSpec σ) (text : String) : Except Stop σ :=
  match spec.effect with
  | .value set =>
    (set (if text == "--" then none else some text) settings).mapError fun error ↦
      .refused (.ofValue spec.label error)
  | _ => .ok settings

namespace Reading

/-- The end of a command line: everything required is there and nothing is left over. -/
def finish (g : Grammar σ) (r : Reading σ) : Except Stop (σ × Option String) :=
  match g.positional, r.positional with
  | some name, none => .error (.refused (.required name))
  | _, _ =>
    if r.extras.isEmpty then .ok (r.settings, r.positional)
    else .error (.refused (.unrecognized r.extras.reverse))

/-- Whether the positional argument is still to come. -/
def awaits (g : Grammar σ) (r : Reading σ) : Bool :=
  g.positional.isSome && r.positional.isNone

def leave (r : Reading σ) (texts : List String) : Reading σ :=
  { r with extras := texts.reverse ++ r.extras }

/-- Reads the remaining words. The mark goes with the positional argument next to it, on
either side; an option without an attached value takes the plain argument right after it. -/
def resume (g : Grammar σ) (r : Reading σ) : List (Word σ) → Except Stop (σ × Option String)
  | [] => r.finish g
  | .unknown text :: rest => resume g (r.leave [text]) rest
  | .plain text :: .mark :: rest =>
    if r.awaits g then resume g { r with positional := some text } rest
    else resume g (r.leave [text, "--"]) rest
  | .mark :: .plain text :: rest =>
    if r.awaits g then resume g { r with positional := some text } rest
    else resume g (r.leave ["--", text]) rest
  | .plain text :: rest =>
    if r.awaits g then resume g { r with positional := some text } rest
    else resume g (r.leave [text]) rest
  | .mark :: rest => resume g (r.leave ["--"]) rest
  | .option string spec attached :: rest => do
    let (flags, last, attached) ← expand g string spec attached
    match last.takesValue, attached, rest with
    | true, some text, rest =>
      let settings ← flags.foldlM applyFlag r.settings
      resume g { r with settings := ← applyValue settings last text } rest
    | true, none, .plain text :: rest =>
      let settings ← flags.foldlM applyFlag r.settings
      resume g { r with settings := ← applyValue settings last text } rest
    | true, none, _ => .error (.refused (.expectedArgument last.label))
    | false, _, rest =>
      resume g { r with settings := ← (flags ++ [last]).foldlM applyFlag r.settings } rest

end Reading

/-- Reads a command line, from the settings that hold where it says nothing. Also gives the
positional argument. -/
def read (g : Grammar σ) (defaults : σ) (arguments : List String) :
    Except Stop (σ × Option String) :=
  match Word.ofArguments g arguments with
  | .error error => .error (.refused error)
  | .ok words => Reading.resume g ⟨defaults, none, []⟩ words

end Brainfuck.Options
