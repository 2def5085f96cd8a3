import Brainfuck.Text.Hex
import Brainfuck.Text.Printable

/-!
Texts as they are quoted in messages. A text stands between single quotes,
unless it holds a single quote and no double one; the quote and the backslash
are escaped with a backslash, and a character that is not printable is written
by its code point.
-/

set_option autoImplicit false
set_option relaxedAutoImplicit false

namespace Brainfuck.Text.Quoted

def singleQuote : Char := Char.ofNat 0x27

def doubleQuote : Char := Char.ofNat 0x22

def backslash : Char := Char.ofNat 0x5c

/-- The mark that a text is quoted with. -/
def mark (text : List Char) : Char :=
  if text.contains singleQuote && !text.contains doubleQuote then doubleQuote else singleQuote

/-- A code point by number, in the shortest of the three forms that holds it. -/
def numeric (c : Char) : List Char :=
  let n := c.toNat
  if n < 0x100 then backslash :: 'x' :: Hex.write 2 n
  else if n < 0x10000 then backslash :: 'u' :: Hex.write 4 n
  else backslash :: 'U' :: Hex.write 8 n

def escape (mark c : Char) : List Char :=
  if c = mark ∨ c = backslash then [backslash, c]
  else if c = '\n' then [backslash, 'n']
  else if c = '\r' then [backslash, 'r']
  else if c = '\t' then [backslash, 't']
  else if Printable.isPrintable c then [c]
  else numeric c

def quote (text : String) : String :=
  let m := mark text.toList
  String.ofList (m :: text.toList.flatMap (escape m) ++ [m])

end Brainfuck.Text.Quoted
