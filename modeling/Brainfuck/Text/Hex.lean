/-!
Hexadecimal digits: numbers are written in lower case and read in either.
-/

set_option autoImplicit false
set_option relaxedAutoImplicit false

namespace Brainfuck.Text.Hex

/-- A number with at least `width` digits. -/
def write (width n : Nat) : List Char :=
  let digits := Nat.toDigits 16 n
  List.replicate (width - digits.length) '0' ++ digits

/-- The value of a digit. -/
def value? (c : Char) : Option Nat :=
  if '0' ≤ c ∧ c ≤ '9' then some (c.toNat - '0'.toNat)
  else if 'a' ≤ c ∧ c ≤ 'f' then some (c.toNat - 'a'.toNat + 10)
  else if 'A' ≤ c ∧ c ≤ 'F' then some (c.toNat - 'A'.toNat + 10)
  else none

end Brainfuck.Text.Hex
