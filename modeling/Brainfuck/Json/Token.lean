import Brainfuck.Json
import Brainfuck.Text.Quoted

/-!
The tokens of a JSON text, each with the offset at which it begins, in
characters. Taking a token never fails: where a text goes wrong there is a
token that says so, and whoever reads the tokens decides what that means at
that place.
-/

set_option autoImplicit false
set_option relaxedAutoImplicit false

namespace Brainfuck.Json

inductive TokenKind where
  | beginArray
  | endArray
  | beginObject
  | endObject
  | colon
  | comma
  /-- A value that is neither an array nor an object nor a string. -/
  | scalar (value : Json)
  | string (value : String)
  /-- A string that is ill formed at an offset. -/
  | badString (offset : Nat)
  /-- An integer of more digits than are read. -/
  | oversized
  /-- Something that begins no token. -/
  | junk
  | ending

structure Token where
  start : Nat
  kind : TokenKind

namespace Token

def isBlank (c : Char) : Bool :=
  c == ' ' || c == '\t' || c == '\n' || c == '\r'

def isDigit (c : Char) : Bool :=
  '0' ≤ c && c ≤ '9'

/-- Four hexadecimal digits that are followed by something, as a number. -/
def hexUnit? (cs : List Char) : Option Nat :=
  if (cs.take 5).length < 5 then none
  else (cs.take 4).foldlM (fun n c ↦ (Text.Hex.value? c).map (16 * n + ·)) 0

def isHighSurrogate (unit : Nat) : Bool :=
  0xd800 ≤ unit && unit < 0xdc00

def isLowSurrogate (unit : Nat) : Bool :=
  0xdc00 ≤ unit && unit < 0xe000

/-- A character given by one unit; half of a pair alone becomes the replacement character. -/
def charOfUnit (unit : Nat) : Char :=
  if isHighSurrogate unit || isLowSurrogate unit then Char.ofNat 0xfffd else Char.ofNat unit

def charOfPair (high low : Nat) : Char :=
  Char.ofNat (0x10000 + (high - 0xd800) * 0x400 + (low - 0xdc00))

/-- Reads a character given by number, from behind the letter `u`: the character and how many
characters of the text it takes. A failure is where the letter of the bad escape stands, counted
from the first letter. -/
def numericEscape (cs : List Char) : Except Nat (Char × Nat) :=
  match hexUnit? cs with
  | none => .error 0
  | some unit =>
    let rest := cs.drop 4
    if isHighSurrogate unit && 7 ≤ (rest.take 7).length &&
        rest.take 2 == [Text.Quoted.backslash, 'u'] then
      match hexUnit? (rest.drop 2) with
      | none => .error 6
      | some low =>
        if isLowSurrogate low then .ok (charOfPair unit low, 10) else .ok (charOfUnit unit, 4)
    else
      .ok (charOfUnit unit, 4)

/-- The character that a letter behind a backslash stands for. -/
def letterEscape? (c : Char) : Option Char :=
  if c = Text.Quoted.doubleQuote then some c
  else if c = Text.Quoted.backslash then some c
  else if c = '/' then some c
  else if c = 'b' then some (Char.ofNat 0x08)
  else if c = 'f' then some (Char.ofNat 0x0c)
  else if c = 'n' then some '\n'
  else if c = 'r' then some '\r'
  else if c = 't' then some '\t'
  else none

/-- The rest of a string whose quote stands at `start`: what it holds, and what follows it at
which offset. A failure is the offset to complain about. -/
def stringFrom (start : Nat) (read : List Char) (offset : Nat) (cs : List Char) :
    Except Nat (String × Nat × List Char) :=
  match cs with
  | [] => .error start
  | c :: rest =>
    if c = Text.Quoted.doubleQuote then
      .ok (String.ofList read.reverse, offset + 1, rest)
    else if c = Text.Quoted.backslash then
      match rest with
      | [] => .error start
      | 'u' :: digits =>
        match numericEscape digits with
        | .error distance => .error (offset + 1 + distance)
        | .ok (char, used) =>
          stringFrom start (char :: read) (offset + 2 + used) (digits.drop used)
      | letter :: rest =>
        match letterEscape? letter with
        | some char => stringFrom start (char :: read) (offset + 2) rest
        | none => .error offset
    else if c.toNat < 0x20 then
      .error offset
    else
      stringFrom start (c :: read) (offset + 1) rest
termination_by cs.length
decreasing_by
  all_goals simp; try omega

/-- The characters of a number at the front of a text: its whole part, and the fraction and
exponent if there are any. -/
def numberParts (cs : List Char) : Option (List Char × List Char) :=
  let sign := cs.takeWhile (· == '-') |>.take 1
  let unsigned := cs.drop sign.length
  let whole :=
    match unsigned with
    | '0' :: _ => ['0']
    | _ => unsigned.takeWhile isDigit
  if whole.isEmpty then none
  else
    let rest := unsigned.drop whole.length
    let fraction :=
      match rest with
      | '.' :: digits =>
        match digits.takeWhile isDigit with
        | [] => []
        | digits => '.' :: digits
      | _ => []
    let exponent :=
      match rest.drop fraction.length with
      | e :: digits =>
        if e == 'e' || e == 'E' then
          let mark := digits.takeWhile (fun c ↦ c == '+' || c == '-') |>.take 1
          match (digits.drop mark.length).takeWhile isDigit with
          | [] => []
          | power => e :: mark ++ power
        else []
      | [] => []
    some (sign ++ whole, fraction ++ exponent)

/-- An integer has at most this many digits. -/
def maxDigits : Nat := 4300

def integerOf (whole : List Char) : TokenKind :=
  let digits := whole.filter isDigit
  if maxDigits < digits.length then .oversized
  else
    let n := digits.foldl (fun n c ↦ 10 * n + (c.toNat - '0'.toNat)) 0
    .scalar (.integer (if whole.head? == some '-' then -(n : Int) else n))

/-- The words that are values, longest first where one begins another. -/
def words : List (String × Json) :=
  [("null", .null), ("true", .bool true), ("false", .bool false), ("NaN", .decimal "NaN"),
    ("Infinity", .decimal "Infinity"), ("-Infinity", .decimal "-Infinity")]

/-- A word or number at the front of a text, and its length. -/
def scalarAt (cs : List Char) : Option (TokenKind × Nat) :=
  match words.find? fun entry ↦ entry.1.toList.isPrefixOf cs with
  | some (word, value) => some (.scalar value, word.length)
  | none =>
    (numberParts cs).map fun (whole, tail) ↦
      if tail.isEmpty then (integerOf whole, whole.length)
      else (.scalar (.decimal (String.ofList (whole ++ tail))), whole.length + tail.length)

def punctuation? (c : Char) : Option TokenKind :=
  match c with
  | '[' => some .beginArray
  | ']' => some .endArray
  | ':' => some .colon
  | ',' => some .comma
  | _ =>
    if c = Char.ofNat 0x7b then some .beginObject
    else if c = Char.ofNat 0x7d then some .endObject
    else none

/-- The token at the front of a text that begins at `offset`, and what follows it at which
offset. Blanks before the token are passed over. -/
def first (offset : Nat) (text : List Char) : Token × Nat × List Char :=
  let start := offset + (text.takeWhile isBlank).length
  let cs := text.dropWhile isBlank
  match cs with
  | [] => (⟨start, .ending⟩, start, [])
  | c :: rest =>
    match punctuation? c with
    | some kind => (⟨start, kind⟩, start + 1, rest)
    | none =>
      if c = Text.Quoted.doubleQuote then
        match stringFrom start [] (start + 1) rest with
        | .error bad => (⟨start, .badString bad⟩, start + 1, rest)
        | .ok (value, next, rest) => (⟨start, .string value⟩, next, rest)
      else
        match scalarAt cs with
        | some (kind, length) => (⟨start, kind⟩, start + length, cs.drop length)
        | none => (⟨start, .junk⟩, start + 1, rest)

end Token

end Brainfuck.Json
