import Brainfuck.Text.Utf8

/-!
Reading back what was encoded. The first byte of a character says how many follow, and
each of the others carries six bits of the code point, which the reader collects
(`Decoder.foldlM_push_more`, `Decoder.foldlM_push_last`). The bounds that it puts on the
second byte are kept by every character (`exists_ofLead?_three`, `exists_ofLead?_four`). So
the encoding of a text is read as that text (`decode_toUTF8`).
-/

set_option autoImplicit false
set_option relaxedAutoImplicit false

namespace Brainfuck.Text.Utf8

namespace Decoder

variable {chars : List Char} {bits owed n : Nat} {low high : UInt8} {rest : List UInt8}

theorem foldlM_push_cons {d : Decoder} {b : UInt8} :
    (b :: rest).foldlM push d = (d.push b).bind fun d' ↦ rest.foldlM push d' :=
  rfl

theorem foldlM_push_ascii (hn : n < 0x80) :
    (UInt8.ofNat n :: rest).foldlM push ⟨chars, none⟩ =
      rest.foldlM push ⟨Char.ofNat n :: chars, none⟩ := by
  have hbyte : (UInt8.ofNat n).toNat = n := UInt8.toNat_ofNat_of_lt' (by omega : n < 256)
  have hlt : UInt8.ofNat n < 0x80 := by
    rw [UInt8.lt_iff_toNat_lt, hbyte]
    exact hn
  rw [foldlM_push_cons, push, if_pos hlt, hbyte]
  rfl

theorem foldlM_push_lead {begun : Begun} (hlow : 0x80 ≤ n) (hhigh : n < 256)
    (hlead : Begun.ofLead? (UInt8.ofNat n) = some begun) :
    (UInt8.ofNat n :: rest).foldlM push ⟨chars, none⟩ =
      rest.foldlM push ⟨chars, some begun⟩ := by
  have hge : ¬ UInt8.ofNat n < 0x80 := by
    rw [UInt8.lt_iff_toNat_lt, UInt8.toNat_ofNat_of_lt' hhigh]
    exact Nat.not_lt.mpr hlow
  simp only [foldlM_push_cons, push, if_neg hge, hlead]
  rfl

/-- A byte between the bounds adds six bits to the character that has begun. -/
theorem push_begun (hbounds : low.toNat ≤ n + 0x80 ∧ n + 0x80 ≤ high.toNat) :
    push ⟨chars, some ⟨bits, owed, low, high⟩⟩ (UInt8.ofNat (n + 0x80)) =
      if owed ≤ 1 then .ok ⟨Char.ofNat (bits * 64 + n) :: chars, none⟩
      else .ok ⟨chars, some ⟨bits * 64 + n, owed - 1, 0x80, 0xbf⟩⟩ := by
  have hlt : n + 0x80 < 256 := by
    have := high.toNat_lt
    omega
  have hbetween : low ≤ UInt8.ofNat (n + 0x80) ∧ UInt8.ofNat (n + 0x80) ≤ high := by
    simp only [UInt8.le_iff_toNat_le, UInt8.toNat_ofNat_of_lt' hlt]
    exact hbounds
  simp only [push, if_pos hbetween, UInt8.toNat_ofNat_of_lt' hlt, Nat.add_sub_cancel]

theorem foldlM_push_more (hbounds : low.toNat ≤ n + 0x80 ∧ n + 0x80 ≤ high.toNat) :
    (UInt8.ofNat (n + 0x80) :: rest).foldlM push ⟨chars, some ⟨bits, owed + 2, low, high⟩⟩ =
      rest.foldlM push ⟨chars, some ⟨bits * 64 + n, owed + 1, 0x80, 0xbf⟩⟩ := by
  rw [foldlM_push_cons, push_begun hbounds, if_neg (by omega)]
  rfl

theorem foldlM_push_last (hbounds : low.toNat ≤ n + 0x80 ∧ n + 0x80 ≤ high.toNat) :
    (UInt8.ofNat (n + 0x80) :: rest).foldlM push ⟨chars, some ⟨bits, 1, low, high⟩⟩ =
      rest.foldlM push ⟨Char.ofNat (bits * 64 + n) :: chars, none⟩ := by
  rw [foldlM_push_cons, push_begun hbounds, if_pos (Nat.le_refl 1)]
  rfl

end Decoder

/-! ### The bytes of a character -/

variable {v : Nat}

/-- The first bytes of longer characters, by their numbers. -/
theorem ofLead?_ofNat {n : Nat} (hn : n < 256) :
    Begun.ofLead? (UInt8.ofNat n) =
      if 0xc2 ≤ n ∧ n ≤ 0xdf then some ⟨n - 0xc0, 1, 0x80, 0xbf⟩
      else if n = 0xe0 then some ⟨0x0, 2, 0xa0, 0xbf⟩
      else if n = 0xed then some ⟨0xd, 2, 0x80, 0x9f⟩
      else if 0xe1 ≤ n ∧ n ≤ 0xef then some ⟨n - 0xe0, 2, 0x80, 0xbf⟩
      else if n = 0xf0 then some ⟨0x0, 3, 0x90, 0xbf⟩
      else if n = 0xf4 then some ⟨0x4, 3, 0x80, 0x8f⟩
      else if 0xf1 ≤ n ∧ n ≤ 0xf3 then some ⟨n - 0xf0, 3, 0x80, 0xbf⟩
      else none := by
  simp only [Begun.ofLead?, UInt8.le_iff_toNat_le, ← UInt8.toNat_inj,
    UInt8.toNat_ofNat_of_lt' hn, UInt8.reduceToNat]

/-- Six bits are between the bounds of every byte behind the second. -/
theorem sixBits_bounds (n : Nat) :
    (0x80 : UInt8).toNat ≤ n % 64 + 0x80 ∧ n % 64 + 0x80 ≤ (0xbf : UInt8).toNat := by
  simp only [UInt8.reduceToNat]
  omega

theorem ofLead?_two (hlow : 0x80 ≤ v) (hhigh : v ≤ 0x7ff) :
    Begun.ofLead? (UInt8.ofNat (v / 64 % 32 + 192)) = some ⟨v / 64, 1, 0x80, 0xbf⟩ := by
  have hbits : v / 64 % 32 + 192 - 192 = v / 64 := by omega
  rw [ofLead?_ofNat (by omega), if_pos (by omega), hbits]

/-- The second byte is within the bounds that keep out overlong forms and surrogates. -/
theorem exists_ofLead?_three (hlow : 0x800 ≤ v) (hhigh : v ≤ 0xffff)
    (hvalid : v < 0xd800 ∨ 0xdfff < v) :
    ∃ low high, Begun.ofLead? (UInt8.ofNat (v / 4096 % 16 + 224)) =
        some ⟨v / 4096, 2, low, high⟩ ∧
      low.toNat ≤ v / 64 % 64 + 0x80 ∧ v / 64 % 64 + 0x80 ≤ high.toNat := by
  rw [ofLead?_ofNat (by omega), if_neg (by omega)]
  by_cases hfirst : v / 4096 = 0
  · rw [if_pos (by omega), hfirst]
    refine ⟨0xa0, 0xbf, rfl, ?_⟩
    simp only [UInt8.reduceToNat]
    omega
  · by_cases hsurrogates : v / 4096 = 0xd
    · rw [if_neg (by omega), if_pos (by omega), hsurrogates]
      refine ⟨0x80, 0x9f, rfl, ?_⟩
      simp only [UInt8.reduceToNat]
      omega
    · have hbits : v / 4096 % 16 + 224 - 224 = v / 4096 := by omega
      rw [if_neg (by omega), if_neg (by omega), if_pos (by omega), hbits]
      exact ⟨0x80, 0xbf, rfl, sixBits_bounds _⟩

/-- The second byte is within the bounds that keep out overlong forms and code points above
`U+10FFFF`. -/
theorem exists_ofLead?_four (hlow : 0x10000 ≤ v) (hhigh : v < 0x110000) :
    ∃ low high, Begun.ofLead? (UInt8.ofNat (v / 262144 % 8 + 240)) =
        some ⟨v / 262144, 3, low, high⟩ ∧
      low.toNat ≤ v / 4096 % 64 + 0x80 ∧ v / 4096 % 64 + 0x80 ≤ high.toNat := by
  rw [ofLead?_ofNat (by omega), if_neg (by omega), if_neg (by omega), if_neg (by omega),
    if_neg (by omega)]
  by_cases hfirst : v / 262144 = 0
  · rw [if_pos (by omega), hfirst]
    refine ⟨0x90, 0xbf, rfl, ?_⟩
    simp only [UInt8.reduceToNat]
    omega
  · by_cases hlast : v / 262144 = 4
    · rw [if_neg (by omega), if_pos (by omega), hlast]
      refine ⟨0x80, 0x8f, rfl, ?_⟩
      simp only [UInt8.reduceToNat]
      omega
    · have hbits : v / 262144 % 8 + 240 - 240 = v / 262144 := by omega
      rw [if_neg (by omega), if_neg (by omega), if_pos (by omega), hbits]
      exact ⟨0x80, 0xbf, rfl, sixBits_bounds _⟩

/-- The bytes of a character are read as that character. -/
theorem foldlM_push_utf8EncodeChar (c : Char) (chars : List Char) (rest : List UInt8) :
    (String.utf8EncodeChar c ++ rest).foldlM Decoder.push ⟨chars, none⟩ =
      rest.foldlM Decoder.push ⟨c :: chars, none⟩ := by
  have hchar {code : Nat} (hcode : code = c.val.toNat) : Char.ofNat code = c := by
    rw [hcode]
    exact Char.ofNat_toNat c
  have hvalid : c.val.toNat < 0xd800 ∨ 0xdfff < c.val.toNat ∧ c.val.toNat < 0x110000 := c.valid
  unfold String.utf8EncodeChar
  generalize c.val.toNat = v at hchar hvalid
  dsimp only
  by_cases hone : v ≤ 0x7f
  · rw [if_pos hone, List.singleton_append, Decoder.foldlM_push_ascii (by omega), hchar rfl]
  rw [if_neg hone]
  by_cases htwo : v ≤ 0x7ff
  · rw [if_pos htwo, List.cons_append, Decoder.foldlM_push_lead (by omega) (by omega)
      (ofLead?_two (by omega) htwo), List.singleton_append,
      Decoder.foldlM_push_last (sixBits_bounds _), hchar (by omega)]
  rw [if_neg htwo]
  by_cases hthree : v ≤ 0xffff
  · obtain ⟨low, high, hlead, hbounds⟩ :=
      exists_ofLead?_three (v := v) (by omega) hthree (by omega)
    rw [if_pos hthree, List.cons_append, Decoder.foldlM_push_lead (by omega) (by omega) hlead,
      List.cons_append, Decoder.foldlM_push_more hbounds, List.singleton_append,
      Decoder.foldlM_push_last (sixBits_bounds _), hchar (by omega)]
  · obtain ⟨low, high, hlead, hbounds⟩ := exists_ofLead?_four (v := v) (by omega) (by omega)
    rw [if_neg hthree, List.cons_append, Decoder.foldlM_push_lead (by omega) (by omega) hlead,
      List.cons_append, Decoder.foldlM_push_more hbounds, List.cons_append,
      Decoder.foldlM_push_more (sixBits_bounds _), List.singleton_append,
      Decoder.foldlM_push_last (sixBits_bounds _), hchar (by omega)]

theorem decode_eq_bind (bytes : List UInt8) :
    decode bytes = (bytes.foldlM Decoder.push ⟨[], none⟩).bind Decoder.finish :=
  rfl

/-- The bytes of characters are read as those characters, whatever follows. -/
theorem foldlM_push_flatMap (text chars : List Char) (rest : List UInt8) :
    (text.flatMap String.utf8EncodeChar ++ rest).foldlM Decoder.push ⟨chars, none⟩ =
      rest.foldlM Decoder.push ⟨text.reverse ++ chars, none⟩ := by
  induction text generalizing chars with
  | nil => rfl
  | cons c text ih =>
    rw [List.flatMap_cons, List.append_assoc, foldlM_push_utf8EncodeChar, ih, List.reverse_cons,
      List.append_assoc, List.singleton_append]

theorem decode_flatMap (text : List Char) :
    decode (text.flatMap String.utf8EncodeChar) = .ok text := by
  have hread := foldlM_push_flatMap text [] []
  rw [List.append_nil, List.append_nil] at hread
  rw [decode_eq_bind, hread]
  exact congrArg Except.ok text.reverse_reverse

/-- The encoding of a text is that of its characters, one after the other. -/
theorem data_toUTF8 (text : String) :
    text.toUTF8.data.toList = text.toList.flatMap String.utf8EncodeChar := by
  have hbytes : text.toUTF8 = text.toList.utf8Encode := by
    rw [String.toUTF8_eq_toByteArray, ← String.toByteArray_ofList, String.ofList_toList]
  rw [hbytes, List.utf8Encode, List.toList_data_toByteArray]

/-- The encoding of a text is read as that text. -/
theorem decode_toUTF8 (text : String) : decode text.toUTF8.data.toList = .ok text.toList := by
  rw [data_toUTF8, decode_flatMap]

end Brainfuck.Text.Utf8
