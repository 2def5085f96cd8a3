import Brainfuck.Text.Utf8

/-!
Texts in one of the Unicode encodings. A byte order mark tells which one it is
and is dropped. Without a mark the zero bytes among the first four tell it,
since a text that begins with two ASCII characters has them in fixed places.
-/

set_option autoImplicit false
set_option relaxedAutoImplicit false

namespace Brainfuck.Text

inductive ByteOrder where
  | big
  | little

inductive Encoding where
  | utf8
  | utf16 (order : ByteOrder)
  | utf32 (order : ByteOrder)

namespace Encoding

/-- The encoding that a byte order mark announces, and what follows the mark. -/
def ofMark? : List UInt8 → Option (Encoding × List UInt8)
  | 0x00 :: 0x00 :: 0xfe :: 0xff :: rest => some (.utf32 .big, rest)
  | 0xff :: 0xfe :: 0x00 :: 0x00 :: rest => some (.utf32 .little, rest)
  | 0xfe :: 0xff :: rest => some (.utf16 .big, rest)
  | 0xff :: 0xfe :: rest => some (.utf16 .little, rest)
  | 0xef :: 0xbb :: 0xbf :: rest => some (.utf8, rest)
  | _ => none

/-- The encoding that the places of zero bytes suggest. -/
def guess : List UInt8 → Encoding
  | [a, b] => if a = 0 then .utf16 .big else if b = 0 then .utf16 .little else .utf8
  | a :: b :: c :: d :: _ =>
    if a = 0 then (if b = 0 then .utf32 .big else .utf16 .big)
    else if b = 0 then (if c = 0 ∧ d = 0 then .utf32 .little else .utf16 .little)
    else .utf8
  | _ => .utf8

def unit (order : ByteOrder) (a b : UInt8) : Nat :=
  match order with
  | .big => a.toNat * 256 + b.toNat
  | .little => b.toNat * 256 + a.toNat

/-- The units of two bytes, if none is cut short. -/
def units? (order : ByteOrder) (read : List Nat) : List UInt8 → Option (List Nat)
  | [] => some read.reverse
  | [_] => none
  | a :: b :: rest => units? order (unit order a b :: read) rest

/-- The characters of units of two bytes; a pair of surrogates is one character. -/
def ofUnits? (read : List Char) : List Nat → Option (List Char)
  | [] => some read.reverse
  | high :: low :: rest =>
    if 0xd800 ≤ high ∧ high < 0xdc00 ∧ 0xdc00 ≤ low ∧ low < 0xe000 then
      ofUnits? (Char.ofNat (0x10000 + (high - 0xd800) * 0x400 + (low - 0xdc00)) :: read) rest
    else if high.isValidChar then ofUnits? (Char.ofNat high :: read) (low :: rest)
    else none
  | [unit] => if unit.isValidChar then some (Char.ofNat unit :: read).reverse else none

/-- The characters of units of four bytes, given as the two halves of each. -/
def ofHalves? (order : ByteOrder) (read : List Char) : List Nat → Option (List Char)
  | [] => some read.reverse
  | [_] => none
  | a :: b :: rest =>
    let code :=
      match order with
      | .big => a * 0x10000 + b
      | .little => b * 0x10000 + a
    if code.isValidChar then ofHalves? order (Char.ofNat code :: read) rest else none

def decode? (encoding : Encoding) (bytes : List UInt8) : Option (List Char) :=
  match encoding with
  | .utf8 => (Utf8.decode bytes).toOption
  | .utf16 order => (units? order [] bytes).bind (ofUnits? [])
  | .utf32 order => (units? order [] bytes).bind (ofHalves? order [])

end Encoding

/-- The text of a byte string in whichever encoding it turns out to be. -/
def decodeAny? (bytes : List UInt8) : Option (List Char) :=
  match Encoding.ofMark? bytes with
  | some (encoding, rest) => encoding.decode? rest
  | none => (Encoding.guess bytes).decode? bytes

end Brainfuck.Text
