/-!
Reading UTF-8, one byte at a time. Between two characters a byte either is a
character by itself or begins a longer one; inside a character the next byte
has to lie between two bounds. The bounds of the second byte are narrower
after some first bytes, which keeps out overlong forms, surrogates and code
points above `U+10FFFF`. The first byte that fits nowhere decides what is
wrong with the text.
-/

set_option autoImplicit false
set_option relaxedAutoImplicit false

namespace Brainfuck.Text.Utf8

/-- What is wrong with the first ill-formed sequence of a byte string. -/
inductive Defect where
  | startByte
  | continuationByte
  | endOfData
  deriving DecidableEq

def Defect.reason : Defect → String
  | .startByte => "invalid start byte"
  | .continuationByte => "invalid continuation byte"
  | .endOfData => "unexpected end of data"

/-- A character that has begun: its bits so far, the number of bytes owed, and the
bounds of the next one. -/
structure Begun where
  bits : Nat
  owed : Nat
  low : UInt8
  high : UInt8

/-- What the first byte of a longer character begins. -/
def Begun.ofLead? (b : UInt8) : Option Begun :=
  if 0xc2 ≤ b ∧ b ≤ 0xdf then some ⟨b.toNat - 0xc0, 1, 0x80, 0xbf⟩
  else if b = 0xe0 then some ⟨0x0, 2, 0xa0, 0xbf⟩
  else if b = 0xed then some ⟨0xd, 2, 0x80, 0x9f⟩
  else if 0xe1 ≤ b ∧ b ≤ 0xef then some ⟨b.toNat - 0xe0, 2, 0x80, 0xbf⟩
  else if b = 0xf0 then some ⟨0x0, 3, 0x90, 0xbf⟩
  else if b = 0xf4 then some ⟨0x4, 3, 0x80, 0x8f⟩
  else if 0xf1 ≤ b ∧ b ≤ 0xf3 then some ⟨b.toNat - 0xf0, 3, 0x80, 0xbf⟩
  else none

/-- The characters read so far, newest first, and the one that has begun. -/
structure Decoder where
  chars : List Char
  begun : Option Begun

namespace Decoder

def empty : Decoder := ⟨[], none⟩

/-- Takes one more byte. -/
def push (d : Decoder) (b : UInt8) : Except Defect Decoder :=
  match d.begun with
  | none =>
    if b < 0x80 then
      .ok ⟨Char.ofNat b.toNat :: d.chars, none⟩
    else
      match Begun.ofLead? b with
      | some begun => .ok ⟨d.chars, some begun⟩
      | none => .error .startByte
  | some begun =>
    if begun.low ≤ b ∧ b ≤ begun.high then
      let bits := begun.bits * 64 + (b.toNat - 0x80)
      if begun.owed ≤ 1 then
        .ok ⟨Char.ofNat bits :: d.chars, none⟩
      else
        .ok ⟨d.chars, some ⟨bits, begun.owed - 1, 0x80, 0xbf⟩⟩
    else
      .error .continuationByte

/-- The text that was read, if no character is left half read. -/
def finish (d : Decoder) : Except Defect (List Char) :=
  match d.begun with
  | none => .ok d.chars.reverse
  | some _ => .error .endOfData

end Decoder

/-- The characters that a byte string encodes. -/
def decode (bytes : List UInt8) : Except Defect (List Char) := do
  (← bytes.foldlM Decoder.push Decoder.empty).finish

end Brainfuck.Text.Utf8
