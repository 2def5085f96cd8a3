import Brainfuck.Proofs.Decoding
import Mathlib.Data.List.Basic
import Mathlib.Data.List.Induction
import Mathlib.Tactic.SplitIfs

/-!
Ill-formed bytes. A character begins with a byte that says how many bytes it has, and the second
byte is restricted after four of the first bytes, so that no character has two encodings and
nothing encodes what is no character. `extent?` and `Continues` are this table. Where a byte
string breaks it for the first time, there are three reasons, which are the rules of `IllFormed`:
a byte that begins no character, a byte that cannot stand where it does, or the end.

Every byte string is the encoding of a text, or the encoding of a text followed by an ill-formed
sequence (`encoded_or_illFormed`). The decoder gives the text in the first case, and the reason
in the second (`decode_eq_ok_iff`, `IllFormed.exists_decode_eq_error`).
-/

set_option autoImplicit false
set_option relaxedAutoImplicit false

namespace Brainfuck.Text.Utf8

/-! ### The table of well-formed bytes -/

/-- How many bytes a character has that begins with `lead`, if there is one. -/
def extent? (lead : UInt8) : Option Nat :=
  if lead ≤ 0x7f then some 1
  else if lead ≤ 0xc1 then none
  else if lead ≤ 0xdf then some 2
  else if lead ≤ 0xef then some 3
  else if lead ≤ 0xf4 then some 4
  else none

/-- Whether a byte can stand in a character behind its first byte and `gap` others. -/
def Continues (lead : UInt8) (gap : Nat) (b : UInt8) : Prop :=
  (0x80 ≤ b ∧ b ≤ 0xbf) ∧ (gap = 0 → (lead = 0xe0 → 0xa0 ≤ b) ∧ (lead = 0xed → b ≤ 0x9f) ∧
    (lead = 0xf0 → 0x90 ≤ b) ∧ (lead = 0xf4 → b ≤ 0x8f))

instance (lead : UInt8) (gap : Nat) (b : UInt8) : Decidable (Continues lead gap b) :=
  inferInstanceAs (Decidable (_ ∧ _))

/-- Whether all of these bytes can stand behind `lead`. -/
def Continued (lead : UInt8) (more : List UInt8) : Prop :=
  ∀ gap b, more[gap]? = some b → Continues lead gap b

/-- The byte string begins with an ill-formed sequence, for this reason. -/
inductive IllFormed : List UInt8 → String → Prop
  | start {lead : UInt8} (hlead : (0x80 ≤ lead ∧ lead ≤ 0xc1) ∨ 0xf5 ≤ lead)
      (rest : List UInt8) : IllFormed (lead :: rest) "invalid start byte"
  | truncated {lead : UInt8} {more : List UInt8} {extent : Nat}
      (hextent : extent? lead = some extent) (hshort : more.length + 1 < extent)
      (hmore : Continued lead more) : IllFormed (lead :: more) "unexpected end of data"
  | continuation {lead : UInt8} {more : List UInt8} {extent : Nat} {b : UInt8}
      (hextent : extent? lead = some extent) (hshort : more.length + 1 < extent)
      (hmore : Continued lead more) (hb : ¬ Continues lead more.length b) (rest : List UInt8) :
      IllFormed (lead :: (more ++ b :: rest)) "invalid continuation byte"

variable {lead b : UInt8} {more rest : List UInt8} {extent : Nat}

theorem continued_nil (lead : UInt8) : Continued lead [] := by
  intro gap b hget
  cases hget

theorem Continued.concat (hmore : Continued lead more) (hb : Continues lead more.length b) :
    Continued lead (more ++ [b]) := by
  intro gap b' hget
  rcases Nat.lt_trichotomy gap more.length with hlt | heq | hgt
  · rw [List.getElem?_append_left hlt] at hget
    exact hmore gap b' hget
  · subst heq
    rw [List.getElem?_concat_length] at hget
    exact Option.some.inj hget ▸ hb
  · have hlt := (List.getElem?_eq_some_iff.mp hget).1
    rw [List.length_append, List.length_singleton] at hlt
    omega

theorem Continued.of_concat (hmore : Continued lead (more ++ [b])) :
    Continued lead more ∧ Continues lead more.length b := by
  refine ⟨fun gap b' hget ↦ hmore gap b' ?_, hmore _ b List.getElem?_concat_length⟩
  rw [List.getElem?_append_left (List.getElem?_eq_some_iff.mp hget).1, hget]

/-- How far a byte string goes on with a character: as far as it has to, or only up to its end,
or up to a byte that cannot stand there. -/
theorem continued_cases (lead : UInt8) (owed : Nat) (bytes : List UInt8) :
    (∃ more rest, bytes = more ++ rest ∧ more.length = owed ∧ Continued lead more) ∨
      (bytes.length < owed ∧ Continued lead bytes) ∨
      ∃ more b rest, bytes = more ++ b :: rest ∧ more.length < owed ∧ Continued lead more ∧
        ¬ Continues lead more.length b := by
  induction owed with
  | zero => exact .inl ⟨[], bytes, rfl, rfl, continued_nil lead⟩
  | succ owed ih =>
    rcases ih with ⟨more, rest, rfl, hlength, hmore⟩ | ⟨hlength, hmore⟩ |
      ⟨more, b, rest, hbytes, hlength, hmore, hb⟩
    · cases rest with
      | nil =>
        rw [List.append_nil]
        exact .inr (.inl ⟨by omega, hmore⟩)
      | cons b rest =>
        by_cases hb : Continues lead more.length b
        · refine .inl ⟨more ++ [b], rest, by simp, ?_, hmore.concat hb⟩
          rw [List.length_append, List.length_singleton, hlength]
        · exact .inr (.inr ⟨more, b, rest, rfl, by omega, hmore, hb⟩)
    · exact .inr (.inl ⟨by omega, hmore⟩)
    · exact .inr (.inr ⟨more, b, rest, hbytes, by omega, hmore, hb⟩)

theorem extent?_eq_none_iff :
    extent? lead = none ↔ (0x80 ≤ lead ∧ lead ≤ 0xc1) ∨ 0xf5 ≤ lead := by
  simp only [extent?, UInt8.le_iff_toNat_le, UInt8.reduceToNat]
  split_ifs <;> simp <;> omega

/-- The lengths of characters, by the numbers of their first bytes. -/
theorem extent?_cases (hextent : extent? lead = some extent) :
    (lead.toNat ≤ 0x7f ∧ extent = 1) ∨
      ((0xc2 ≤ lead.toNat ∧ lead.toNat ≤ 0xdf) ∧ extent = 2) ∨
      ((0xe0 ≤ lead.toNat ∧ lead.toNat ≤ 0xef) ∧ extent = 3) ∨
      ((0xf0 ≤ lead.toNat ∧ lead.toNat ≤ 0xf4) ∧ extent = 4) := by
  simp only [extent?, UInt8.le_iff_toNat_le, UInt8.reduceToNat] at hextent
  split_ifs at hextent <;> simp only [Option.some.injEq] at hextent <;> omega

theorem continues_iff_toNat {gap : Nat} :
    Continues lead gap b ↔ (0x80 ≤ b.toNat ∧ b.toNat ≤ 0xbf) ∧
      (gap = 0 → (lead.toNat = 0xe0 → 0xa0 ≤ b.toNat) ∧ (lead.toNat = 0xed → b.toNat ≤ 0x9f) ∧
        (lead.toNat = 0xf0 → 0x90 ≤ b.toNat) ∧ (lead.toNat = 0xf4 → b.toNat ≤ 0x8f)) := by
  simp only [Continues, UInt8.le_iff_toNat_le, ← UInt8.toNat_inj, UInt8.reduceToNat]

/-! ### Bytes that make up a character -/

section Encode

variable {v : Nat}

theorem toNat_val_ofNat (hv : v.isValidChar) : (Char.ofNat v).val.toNat = v := by
  rw [Char.ofNat, dif_pos hv]
  rfl

theorem utf8EncodeChar_one (hhigh : v ≤ 0x7f) :
    String.utf8EncodeChar (Char.ofNat v) = [UInt8.ofNat v] := by
  have hv : v.isValidChar := Or.inl (by omega)
  unfold String.utf8EncodeChar
  simp only [toNat_val_ofNat hv, if_pos hhigh]

theorem utf8EncodeChar_two (hlow : 0x80 ≤ v) (hhigh : v ≤ 0x7ff) :
    String.utf8EncodeChar (Char.ofNat v) =
      [UInt8.ofNat (v / 64 % 32 + 192), UInt8.ofNat (v % 64 + 128)] := by
  have hv : v.isValidChar := Or.inl (by omega)
  have hone : ¬ v ≤ 127 := by omega
  unfold String.utf8EncodeChar
  simp only [toNat_val_ofNat hv, if_neg hone, if_pos hhigh]

theorem utf8EncodeChar_three (hlow : 0x800 ≤ v) (hhigh : v ≤ 0xffff)
    (hvalid : v < 0xd800 ∨ 0xdfff < v) :
    String.utf8EncodeChar (Char.ofNat v) =
      [UInt8.ofNat (v / 4096 % 16 + 224), UInt8.ofNat (v / 64 % 64 + 128),
        UInt8.ofNat (v % 64 + 128)] := by
  have hv : v.isValidChar := hvalid.imp id fun h ↦ ⟨h, by omega⟩
  have hone : ¬ v ≤ 127 := by omega
  have htwo : ¬ v ≤ 2047 := by omega
  unfold String.utf8EncodeChar
  simp only [toNat_val_ofNat hv, if_neg hone, if_neg htwo, if_pos hhigh]

theorem utf8EncodeChar_four (hlow : 0x10000 ≤ v) (hhigh : v < 0x110000) :
    String.utf8EncodeChar (Char.ofNat v) =
      [UInt8.ofNat (v / 262144 % 8 + 240), UInt8.ofNat (v / 4096 % 64 + 128),
        UInt8.ofNat (v / 64 % 64 + 128), UInt8.ofNat (v % 64 + 128)] := by
  have hv : v.isValidChar := Or.inr ⟨by omega, hhigh⟩
  have hone : ¬ v ≤ 127 := by omega
  have htwo : ¬ v ≤ 2047 := by omega
  have hthree : ¬ v ≤ 65535 := by omega
  unfold String.utf8EncodeChar
  simp only [toNat_val_ofNat hv, if_neg hone, if_neg htwo, if_neg hthree]

end Encode

theorem ofNat_eq_of_toNat {n : Nat} (hn : n = b.toNat) : UInt8.ofNat n = b := by
  rw [hn, UInt8.ofNat_toNat]

/-- Bytes that follow the table to the end are those of a character. -/
theorem exists_utf8EncodeChar (hextent : extent? lead = some extent)
    (hlength : more.length + 1 = extent) (hmore : Continued lead more) :
    ∃ c, String.utf8EncodeChar c = lead :: more := by
  rcases extent?_cases hextent with ⟨hlead, rfl⟩ | ⟨hlead, rfl⟩ | ⟨hlead, rfl⟩ | ⟨hlead, rfl⟩
  · obtain rfl : more = [] := List.length_eq_zero_iff.mp (by omega)
    exact ⟨_, (utf8EncodeChar_one hlead).trans (by rw [UInt8.ofNat_toNat])⟩
  · obtain ⟨b, rfl⟩ := List.length_eq_one_iff.mp (show more.length = 1 by omega)
    obtain ⟨hb, -⟩ := continues_iff_toNat.mp (hmore 0 b rfl)
    refine ⟨Char.ofNat ((lead.toNat - 0xc0) * 64 + (b.toNat - 0x80)), ?_⟩
    rw [utf8EncodeChar_two (by omega) (by omega), ofNat_eq_of_toNat (b := lead) (by omega),
      ofNat_eq_of_toNat (b := b) (by omega)]
  · obtain ⟨b, c, rfl⟩ := List.length_eq_two.mp (show more.length = 2 by omega)
    obtain ⟨hb, hsecond⟩ := continues_iff_toNat.mp (hmore 0 b rfl)
    obtain ⟨hc, -⟩ := continues_iff_toNat.mp (hmore 1 c rfl)
    obtain ⟨v, hv⟩ : ∃ v, v = (lead.toNat - 0xe0) * 4096 + (b.toNat - 0x80) * 64 +
      (c.toNat - 0x80) := ⟨_, rfl⟩
    -- The second byte is restricted for the sake of these two bounds.
    have hlow : 0x800 ≤ v := by omega
    have hvalid : v < 0xd800 ∨ 0xdfff < v := by omega
    clear hsecond
    refine ⟨Char.ofNat v, ?_⟩
    rw [utf8EncodeChar_three hlow (by omega) hvalid, ofNat_eq_of_toNat (b := lead) (by omega),
      ofNat_eq_of_toNat (b := b) (by omega), ofNat_eq_of_toNat (b := c) (by omega)]
  · obtain ⟨b, c, d, rfl⟩ := List.length_eq_three.mp (show more.length = 3 by omega)
    obtain ⟨hb, hsecond⟩ := continues_iff_toNat.mp (hmore 0 b rfl)
    obtain ⟨hc, -⟩ := continues_iff_toNat.mp (hmore 1 c rfl)
    obtain ⟨hd, -⟩ := continues_iff_toNat.mp (hmore 2 d rfl)
    obtain ⟨v, hv⟩ : ∃ v, v = (lead.toNat - 0xf0) * 262144 + (b.toNat - 0x80) * 4096 +
      (c.toNat - 0x80) * 64 + (d.toNat - 0x80) := ⟨_, rfl⟩
    have hlow : 0x10000 ≤ v := by omega
    have hhigh : v < 0x110000 := by omega
    clear hsecond
    refine ⟨Char.ofNat v, ?_⟩
    rw [utf8EncodeChar_four hlow hhigh, ofNat_eq_of_toNat (b := lead) (by omega),
      ofNat_eq_of_toNat (b := b) (by omega), ofNat_eq_of_toNat (b := c) (by omega),
      ofNat_eq_of_toNat (b := d) (by omega)]

/-! ### Reading -/

/-- What the decoder knows between the bytes of a character: how many it has to wait for, and which
of them can come next. -/
structure Begun.Awaits (begun : Begun) (lead : UInt8) (extent : Nat) (more : List UInt8) :
    Prop where
  owed_eq : begun.owed + more.length + 1 = extent
  bounds_iff (b : UInt8) : begun.low ≤ b ∧ b ≤ begun.high ↔ Continues lead more.length b

variable {begun : Begun}

theorem exists_ofLead?_awaits (hextent : extent? lead = some extent) (hlong : 1 < extent) :
    ∃ begun, Begun.ofLead? lead = some begun ∧ begun.Awaits lead extent [] := by
  have hcases := extent?_cases hextent
  simp only [Begun.ofLead?, UInt8.le_iff_toNat_le, ← UInt8.toNat_inj, UInt8.reduceToNat]
  split_ifs
  case neg => omega
  all_goals
    refine ⟨_, rfl, ?_, fun b ↦ ?_⟩
    · simp only [List.length_nil]
      omega
    · simp only [continues_iff_toNat, UInt8.le_iff_toNat_le, UInt8.reduceToNat, List.length_nil,
        true_implies]
      omega

theorem push_lead (hextent : extent? lead = some extent) (hlong : 1 < extent)
    (chars : List Char) :
    ∃ begun, Decoder.push ⟨chars, none⟩ lead = .ok ⟨chars, some begun⟩ ∧
      begun.Awaits lead extent [] := by
  obtain ⟨begun, hlead, hawaits⟩ := exists_ofLead?_awaits hextent hlong
  have hge : ¬ lead < 0x80 := by
    have hcases := extent?_cases hextent
    simp only [UInt8.lt_iff_toNat_lt, UInt8.reduceToNat]
    omega
  refine ⟨begun, ?_, hawaits⟩
  simp only [Decoder.push, if_neg hge, hlead]

theorem push_stray (hlead : extent? lead = none) (chars : List Char) :
    Decoder.push ⟨chars, none⟩ lead = .error .startByte := by
  rw [extent?_eq_none_iff] at hlead
  simp only [UInt8.le_iff_toNat_le, UInt8.reduceToNat] at hlead
  have hge : ¬ lead < 0x80 := by
    simp only [UInt8.lt_iff_toNat_lt, UInt8.reduceToNat]
    omega
  have hnone : Begun.ofLead? lead = none := by
    simp only [Begun.ofLead?, UInt8.le_iff_toNat_le, ← UInt8.toNat_inj, UInt8.reduceToNat]
    split_ifs
    case neg => rfl
    all_goals omega
  simp only [Decoder.push, if_neg hge, hnone]

/-- A byte that can come next takes the decoder along. -/
theorem Begun.Awaits.push (h : begun.Awaits lead extent more) (hshort : more.length + 2 < extent)
    (hb : Continues lead more.length b) (chars : List Char) :
    ∃ begun', Decoder.push ⟨chars, some begun⟩ b = .ok ⟨chars, some begun'⟩ ∧
      begun'.Awaits lead extent (more ++ [b]) := by
  have howed := h.owed_eq
  have hmore : ¬ begun.owed ≤ 1 := by omega
  refine ⟨⟨begun.bits * 64 + (b.toNat - 0x80), begun.owed - 1, 0x80, 0xbf⟩, ?_, ?_, fun b' ↦ ?_⟩
  · simp only [Decoder.push, if_pos ((h.bounds_iff b).mpr hb), if_neg hmore]
  · rw [List.length_append, List.length_singleton]
    dsimp only
    omega
  · simp [Continues]

theorem Begun.Awaits.push_error (h : begun.Awaits lead extent more)
    (hb : ¬ Continues lead more.length b) (chars : List Char) :
    Decoder.push ⟨chars, some begun⟩ b = .error .continuationByte := by
  simp only [Decoder.push, if_neg fun hbounds ↦ hb ((h.bounds_iff b).mp hbounds)]

/-- Inside of a character the decoder waits for the rest of it. -/
theorem exists_awaits (hextent : extent? lead = some extent) (hshort : more.length + 1 < extent)
    (hmore : Continued lead more) (chars : List Char) :
    ∃ begun, (lead :: more).foldlM Decoder.push ⟨chars, none⟩ = .ok ⟨chars, some begun⟩ ∧
      begun.Awaits lead extent more := by
  -- Bytes come in at the end, where `Begun.Awaits` says what the decoder is waiting for.
  induction more using List.reverseRecOn with
  | nil =>
    obtain ⟨begun, hpush, hawaits⟩ := push_lead hextent hshort chars
    refine ⟨begun, ?_, hawaits⟩
    rw [Decoder.foldlM_push_cons, hpush]
    rfl
  | append_singleton more b ih =>
    rw [List.length_append, List.length_singleton] at hshort
    obtain ⟨begun, hread, hawaits⟩ := ih (by omega) hmore.of_concat.1
    obtain ⟨begun', hpush, hawaits'⟩ := hawaits.push hshort hmore.of_concat.2 chars
    refine ⟨begun', ?_, hawaits'⟩
    rw [← List.cons_append, List.foldlM_append, hread]
    exact Decoder.foldlM_push_cons.trans (by rw [hpush]; rfl)

/-- Reading an ill-formed sequence fails, for the reason that the sequence is ill-formed for. -/
theorem IllFormed.exists_defect {bytes : List UInt8} {reason : String}
    (h : IllFormed bytes reason) :
    ∃ defect : Defect, defect.reason = reason ∧ ∀ chars,
      (bytes.foldlM Decoder.push ⟨chars, none⟩).bind Decoder.finish = .error defect := by
  cases h with
  | @start lead hlead rest =>
    refine ⟨.startByte, rfl, fun chars ↦ ?_⟩
    rw [Decoder.foldlM_push_cons, push_stray (extent?_eq_none_iff.mpr hlead)]
    rfl
  | @truncated lead more extent hextent hshort hmore =>
    refine ⟨.endOfData, rfl, fun chars ↦ ?_⟩
    obtain ⟨begun, hread, -⟩ := exists_awaits hextent hshort hmore chars
    rw [hread]
    rfl
  | @continuation lead more extent b hextent hshort hmore hb rest =>
    refine ⟨.continuationByte, rfl, fun chars ↦ ?_⟩
    obtain ⟨begun, hread, hawaits⟩ := exists_awaits hextent hshort hmore chars
    rw [← List.cons_append, List.foldlM_append, hread]
    change (((b :: rest).foldlM Decoder.push _).bind _) = _
    rw [Decoder.foldlM_push_cons, hawaits.push_error hb]
    rfl

/-! ### All byte strings -/

/-- Every byte string is the encoding of a text, or that of a text with an ill-formed sequence
behind it. -/
theorem encoded_or_illFormed (bytes : List UInt8) :
    (∃ text : List Char, bytes = text.flatMap String.utf8EncodeChar) ∨
      ∃ (text : List Char) (rest : List UInt8) (reason : String),
        bytes = text.flatMap String.utf8EncodeChar ++ rest ∧ IllFormed rest reason := by
  -- A character takes several bytes at once, so the induction is on the length.
  induction hlength : bytes.length using Nat.strongRecOn generalizing bytes with
  | ind length ih =>
    cases bytes with
    | nil => exact .inl ⟨[], rfl⟩
    | cons lead tail =>
      cases hextent : extent? lead with
      | none =>
        exact .inr ⟨[], _, _, rfl, .start (extent?_eq_none_iff.mp hextent) tail⟩
      | some extent =>
        have hpos : 1 ≤ extent := by
          have hcases := extent?_cases hextent
          omega
        rcases continued_cases lead (extent - 1) tail with
          ⟨more, rest, rfl, hmore, hcontinued⟩ | ⟨hshort, hcontinued⟩ |
          ⟨more, b, rest, rfl, hshort, hcontinued, hb⟩
        · obtain ⟨c, hc⟩ := exists_utf8EncodeChar hextent (by omega) hcontinued
          rw [← List.cons_append, ← hc]
          have hrest : rest.length < length := by
            rw [← hlength, List.length_cons, List.length_append]
            omega
          rcases ih rest.length hrest rest rfl with ⟨text, rfl⟩ | ⟨text, rest', reason, rfl, h⟩
          · exact .inl ⟨c :: text, rfl⟩
          · exact .inr ⟨c :: text, rest', reason, by rw [List.flatMap_cons, List.append_assoc], h⟩
        · exact .inr ⟨[], _, _, rfl, .truncated hextent (by omega) hcontinued⟩
        · exact .inr ⟨[], _, _, rfl, .continuation hextent (by omega) hcontinued hb rest⟩

/-- Behind the encoding of a text an ill-formed sequence is found. -/
theorem IllFormed.exists_decode_eq_error {rest : List UInt8} {reason : String}
    (h : IllFormed rest reason) (text : List Char) :
    ∃ defect : Defect, defect.reason = reason ∧
      decode (text.flatMap String.utf8EncodeChar ++ rest) = .error defect := by
  obtain ⟨defect, hreason, hread⟩ := h.exists_defect
  refine ⟨defect, hreason, ?_⟩
  rw [decode_eq_bind, foldlM_push_flatMap]
  exact hread _

/-- What is read as a text is the encoding of it. -/
theorem decode_eq_ok_iff {bytes : List UInt8} {text : List Char} :
    decode bytes = .ok text ↔ bytes = text.flatMap String.utf8EncodeChar := by
  constructor
  · intro hdecode
    rcases encoded_or_illFormed bytes with ⟨text', rfl⟩ | ⟨before, rest, reason, rfl, hill⟩
    · rw [decode_flatMap] at hdecode
      rw [Except.ok.inj hdecode]
    · obtain ⟨defect, -, hdefect⟩ := hill.exists_decode_eq_error before
      rw [hdefect] at hdecode
      cases hdecode
  · rintro rfl
    exact decode_flatMap text

end Brainfuck.Text.Utf8
