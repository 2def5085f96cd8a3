/-!
Bytes as numbers and as characters. A list of numbers is a byte string if every
one of them lies in `0 .. 255`, and a text is one if every character of it
does; the characters then are the code points `U+0000 .. U+00FF`.
-/

set_option autoImplicit false
set_option relaxedAutoImplicit false

namespace Brainfuck.Text.Byte

def ofInt? (n : Int) : Option UInt8 :=
  if 0 ≤ n ∧ n < 256 then some (UInt8.ofInt n) else none

def ofChar? (c : Char) : Option UInt8 :=
  if c.toNat < 256 then some (UInt8.ofNat c.toNat) else none

def toChar (b : UInt8) : Char :=
  Char.ofNat b.toNat

/-- The bytes of a list of numbers, if all of them are bytes. -/
def ofInts? (ns : List Int) : Option (List UInt8) :=
  ns.mapM ofInt?

/-- The bytes of a text, one for each character, if all of them fit. -/
def ofText? (text : String) : Option (List UInt8) :=
  text.toList.mapM ofChar?

/-- The text with one character for each byte. -/
def toText (bytes : List UInt8) : String :=
  String.ofList (bytes.map toChar)

theorem toNat_toChar (b : UInt8) : (toChar b).toNat = b.toNat := by
  have hb : b.toNat < 256 := b.toNat_lt
  have hvalid : b.toNat.isValidChar := Or.inl (by omega)
  rw [toChar, Char.ofNat, dif_pos hvalid]
  rfl

@[simp] theorem ofChar?_toChar (b : UInt8) : ofChar? (toChar b) = some b := by
  have hb : b.toNat < 256 := b.toNat_lt
  simp [ofChar?, toNat_toChar, hb]

/-- A text made of bytes gives them back. -/
theorem ofText?_toText (bytes : List UInt8) : ofText? (toText bytes) = some bytes := by
  rw [ofText?, toText, String.toList_ofList]
  induction bytes with
  | nil => rfl
  | cons b bytes ih => simp [ih]

/-- The numbers of bytes give the bytes back. -/
theorem ofInts?_map_toNat (bytes : List UInt8) :
    ofInts? (bytes.map fun b ↦ (b.toNat : Int)) = some bytes := by
  have hbyte (b : UInt8) : ofInt? (b.toNat : Int) = some b := by
    have hlt := b.toNat_lt
    have hmod : ((b.toNat : Int) % 2 ^ 8).toNat = b.toNat := by omega
    rw [ofInt?, if_pos (by omega), UInt8.ofInt, hmod, UInt8.ofNat_toNat]
  induction bytes with
  | nil => rfl
  | cons b bytes ih =>
    rw [ofInts?] at ih ⊢
    simp [hbyte, ih]

end Brainfuck.Text.Byte
