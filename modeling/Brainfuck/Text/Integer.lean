import Brainfuck.Text.DecimalDigit

/-!
Integers as people type them: blanks around, a sign, decimal digits of any
script, and single underscores between digits.
-/

set_option autoImplicit false
set_option relaxedAutoImplicit false

namespace Brainfuck.Text.Integer

/-- The blank code points outside ASCII. -/
def wideBlanks : List Nat :=
  [0x85, 0xa0, 0x1680, 0x2000, 0x2001, 0x2002, 0x2003, 0x2004, 0x2005, 0x2006, 0x2007, 0x2008,
   0x2009, 0x200a, 0x2028, 0x2029, 0x202f, 0x205f, 0x3000]

/-- Blanks that may stand around an integer. The information separators of ASCII are not
among them. -/
def isBlank (c : Char) : Bool :=
  c == ' ' || (0x09 ≤ c.toNat && c.toNat ≤ 0x0d) || wideBlanks.contains c.toNat

def strip (cs : List Char) : List Char :=
  ((cs.dropWhile isBlank).reverse.dropWhile isBlank).reverse

/-- The digits of a text that begins with a digit; an underscore stands only between two
digits. -/
def digits? : List Char → Option (List Nat)
  | [] => none
  | [c] => (DecimalDigit.value? c).map ([·])
  | c :: '_' :: rest => do return (← DecimalDigit.value? c) :: (← digits? rest)
  | c :: rest => do return (← DecimalDigit.value? c) :: (← digits? rest)

/-- An integer has at most this many digits. -/
def maxDigits : Nat := 4300

def natural? (cs : List Char) : Option Nat := do
  let digits ← digits? cs
  if digits.length ≤ maxDigits then
    return digits.foldl (fun n d ↦ 10 * n + d) 0
  else
    none

def read? (text : String) : Option Int :=
  match strip text.toList with
  | '-' :: cs => (natural? cs).map fun n ↦ -(n : Int)
  | '+' :: cs => (natural? cs).map fun n ↦ (n : Int)
  | cs => (natural? cs).map fun n ↦ (n : Int)

end Brainfuck.Text.Integer
