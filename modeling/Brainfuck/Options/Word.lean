import Brainfuck.Options.Grammar
import Brainfuck.Text.DecimalDigit

/-!
The words of a command line. Every argument is classified before any of them
is acted upon: as an option, with the text attached to it, as an option that
nobody knows, as a plain argument, or as the mark `--`, after which all are
plain.
-/

set_option autoImplicit false
set_option relaxedAutoImplicit false

namespace Brainfuck.Options

inductive Word (σ : Type) where
  | plain (text : String)
  | mark
  | option (string : String) (spec : OptionSpec σ) (attached : Option String)
  | unknown (text : String)

namespace Word

/-- A text cut at its first equals sign. -/
def cutAtEquals (text : String) : String × Option String :=
  let name := text.toList.takeWhile (· != '=')
  match text.toList.drop name.length with
  | _ :: rest => (String.ofList name, some (String.ofList rest))
  | [] => (text, none)

/-- Digits, optionally with a point before the last group of them. -/
def isDecimal (cs : List Char) : Bool :=
  match cs.dropWhile Text.DecimalDigit.isDigit with
  | [] => !cs.isEmpty
  | '.' :: rest => !rest.isEmpty && rest.all Text.DecimalDigit.isDigit
  | _ => false

/-- A minus sign and a decimal number; one line break may follow. -/
def isNegativeNumber (text : String) : Bool :=
  match text.toList with
  | '-' :: cs => isDecimal cs || (cs.getLast? == some '\n' && isDecimal cs.dropLast)
  | _ => false

/-- The options that an argument may abbreviate. Behind two dashes that is any option that
begins with the text before the equals sign; behind one dash, an option of one letter, with the
rest attached, or any option that begins with the whole text. -/
def candidates {σ : Type} (g : Grammar σ) (text : String) :
    List (String × OptionSpec σ × Option String) :=
  if text.startsWith "--" then
    let (name, attached) := cutAtEquals text
    g.strings.filterMap fun (string, spec) ↦
      if string.startsWith name then some (string, spec, attached) else none
  else
    let short := String.ofList (text.toList.take 2)
    g.strings.filterMap fun (string, spec) ↦
      if string == short then some (string, spec, some (String.ofList (text.toList.drop 2)))
      else if string.startsWith text then some (string, spec, none)
      else none

/-- An argument that names no option in full: an abbreviation of just one, or else a plain
argument if it is a negative number or holds a space. -/
def ofAbbreviation {σ : Type} (g : Grammar σ) (text : String) : Except UsageError (Word σ) :=
  match candidates g text with
  | [(string, spec, attached)] => .ok (.option string spec attached)
  | [] =>
    if isNegativeNumber text || text.toList.contains ' ' then .ok (.plain text)
    else .ok (.unknown text)
  | several => .error (.ambiguous text (several.map (·.1)))

/-- An argument that begins with a dash and is not just a dash. -/
def ofDashed {σ : Type} (g : Grammar σ) (text : String) : Except UsageError (Word σ) :=
  match cutAtEquals text with
  | (name, some attached) =>
    match g.find? name with
    | some spec => .ok (.option name spec (some attached))
    | none => ofAbbreviation g text
  | (_, none) => ofAbbreviation g text

/-- One argument before the mark. -/
def ofArgument {σ : Type} (g : Grammar σ) (text : String) : Except UsageError (Word σ) :=
  if !text.startsWith "-" then .ok (.plain text)
  else
    match g.find? text with
    | some spec => .ok (.option text spec none)
    | none => if text == "-" then .ok (.plain text) else ofDashed g text

/-- All arguments of a command line. -/
def ofArguments {σ : Type} (g : Grammar σ) : List String → Except UsageError (List (Word σ))
  | [] => .ok []
  | "--" :: rest => .ok (.mark :: rest.map .plain)
  | text :: rest => do return (← ofArgument g text) :: (← ofArguments g rest)

end Word

end Brainfuck.Options
