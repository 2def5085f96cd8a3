import Brainfuck.Proofs.IllFormed
import Brainfuck.Proofs.Invocation
import Brainfuck.Proofs.Repair

/-!
The bytes of a source file. A file goes on to be parsed exactly if its bytes are the encoding of
a text. Any other file has a first ill-formed sequence, which alone decides what the complaint
says, whatever stands in front of it (`source_file_has_to_be_encoded`).

A file that is parsed need not be decoded for it. The eight symbols are ASCII characters, each of
which is a byte by itself, and all bytes of longer characters lie above them
(`filterMap_ofByte?_utf8EncodeChar`). So the opcodes of a file are its bytes that are symbols,
and a position that is reported counts these (`symbol_bytes_are_opcodes`).
-/

set_option autoImplicit false
set_option relaxedAutoImplicit false

namespace Brainfuck

/-! ### Opcodes among bytes -/

/-- The opcode that an ASCII byte stands for. -/
def Opcode.ofByte? : UInt8 → Option Opcode
  | 0x3e => some (.command .moveRight)
  | 0x3c => some (.command .moveLeft)
  | 0x2b => some (.command .increment)
  | 0x2d => some (.command .decrement)
  | 0x2e => some (.command .write)
  | 0x2c => some (.command .read)
  | 0x5b => some .loopBegin
  | 0x5d => some .loopEnd
  | _ => none

namespace Opcode

theorem ofByte?_ascii {n : Nat} (hn : n < 0x80) :
    ofByte? (UInt8.ofNat n) = ofSymbol? (Char.ofNat n) := by
  revert n
  decide +kernel

theorem ofByte?_high {n : Nat} (hlow : 0x80 ≤ n) (hhigh : n < 0x100) :
    ofByte? (UInt8.ofNat n) = none := by
  revert n
  decide +kernel

theorem ofSymbol?_high {c : Char} (hc : 0x80 ≤ c.toNat) : ofSymbol? c = none := by
  rw [Option.eq_none_iff_forall_ne_some]
  intro o ho
  have hsymbol : o.symbol.toNat < 0x80 := by
    cases o with
    | command c => cases c <;> decide
    | loopBegin => decide
    | loopEnd => decide
  rw [symbol_of_ofSymbol? ho] at hsymbol
  omega

/-- No byte of a longer character is a symbol. -/
theorem ofByte?_of_mem_utf8EncodeChar {c : Char} {b : UInt8} (hc : 0x80 ≤ c.toNat)
    (hb : b ∈ String.utf8EncodeChar c) : ofByte? b = none := by
  have hlow : 0x80 ≤ c.val.toNat := hc
  unfold String.utf8EncodeChar at hb
  generalize c.val.toNat = v at hlow hb
  dsimp only at hb
  rw [if_neg (by omega)] at hb
  split at hb
  · simp only [List.mem_cons, List.not_mem_nil, or_false] at hb
    rcases hb with rfl | rfl <;> exact ofByte?_high (by omega) (by omega)
  split at hb
  · simp only [List.mem_cons, List.not_mem_nil, or_false] at hb
    rcases hb with rfl | rfl | rfl <;> exact ofByte?_high (by omega) (by omega)
  · simp only [List.mem_cons, List.not_mem_nil, or_false] at hb
    rcases hb with rfl | rfl | rfl | rfl <;> exact ofByte?_high (by omega) (by omega)

/-- Among the bytes of a character there is a symbol only if the character is one. -/
theorem filterMap_ofByte?_utf8EncodeChar (c : Char) :
    (String.utf8EncodeChar c).filterMap ofByte? = (ofSymbol? c).toList := by
  by_cases hc : c.toNat < 0x80
  · have hencode := Text.Utf8.utf8EncodeChar_one (Nat.le_of_lt_succ hc)
    have hbyte := ofByte?_ascii hc
    rw [Char.ofNat_toNat] at hencode hbyte
    rw [hencode, List.filterMap_cons, hbyte]
    cases ofSymbol? c <;> rfl
  · have hhigh : 0x80 ≤ c.toNat := Nat.not_lt.mp hc
    rw [ofSymbol?_high hhigh, Option.toList_none, List.filterMap_eq_nil_iff]
    exact fun b hb ↦ ofByte?_of_mem_utf8EncodeChar hhigh hb

end Opcode

/-- The opcodes of a text are those of its bytes. -/
theorem scan_eq_filterMap_ofByte? (source : String) :
    scan source = source.toUTF8.data.toList.filterMap Opcode.ofByte? := by
  rw [Text.Utf8.data_toUTF8, List.filterMap_flatMap, scan]
  simp only [Opcode.filterMap_ofByte?_utf8EncodeChar]
  induction source.toList with
  | nil => rfl
  | cons c text ih =>
    rw [List.flatMap_cons, ← ih, List.filterMap_cons]
    cases Opcode.ofSymbol? c <;> rfl

/-- An element that is kept has as many elements in front of it that are kept as its index
says. -/
theorem exists_getElem?_of_filterMap {α β : Type} {f : α → Option β} {xs : List α} {n : Nat} {y : β}
    (hget : (xs.filterMap f)[n]? = some y) :
    ∃ i x, xs[i]? = some x ∧ f x = some y ∧
      (xs.take i).countP (fun x ↦ (f x).isSome) = n := by
  induction xs generalizing n with
  | nil => cases hget
  | cons x xs ih =>
    cases hx : f x with
    | none =>
      rw [List.filterMap_cons_none hx] at hget
      obtain ⟨i, x', hi, hx', hcount⟩ := ih hget
      refine ⟨i + 1, x', hi, hx', ?_⟩
      rw [List.take_succ_cons, List.countP_cons_of_neg (by simp [hx]), hcount]
    | some z =>
      rw [List.filterMap_cons_some hx] at hget
      cases n with
      | zero => exact ⟨0, x, rfl, hx.trans hget, rfl⟩
      | succ n =>
        obtain ⟨i, x', hi, hx', hcount⟩ := ih hget
        refine ⟨i + 1, x', hi, hx', ?_⟩
        rw [List.take_succ_cons, List.countP_cons_of_pos (by simp [hx]), hcount]

namespace CommandLine

variable {read : Reader} {arguments : List String} {path : String} {content : List UInt8}

/-! ### What is decoded -/

theorem decodeSource_eq_ok_iff {text : String} :
    decodeSource content = .ok text ↔ ∃ source : String, content = source.toUTF8.data.toList ∧
      text = String.ofList (Text.LineBreak.unify source.toList) := by
  unfold decodeSource
  cases hdecode : Text.Utf8.decode content with
  | error defect =>
    simp only [reduceCtorEq, false_iff]
    rintro ⟨source, rfl, -⟩
    rw [Text.Utf8.decode_toUTF8] at hdecode
    cases hdecode
  | ok chars =>
    have hcontent := Text.Utf8.decode_eq_ok_iff.mp hdecode
    simp only [Except.ok.injEq]
    constructor
    · rintro rfl
      refine ⟨String.ofList chars, ?_, by rw [String.toList_ofList]⟩
      rw [Text.Utf8.data_toUTF8, String.toList_ofList, hcontent]
    · rintro ⟨source, rfl, rfl⟩
      rw [Text.Utf8.decode_toUTF8] at hdecode
      rw [Except.ok.inj hdecode]

theorem invoke_of_decodeSource {text : String} (harguments : sourcePath arguments = .ok path)
    (hfile : read path = .ok content) (hdecode : decodeSource content = .ok text)
    (fuel : Nat) (input : List UInt8) :
    invoke fuel read arguments input =
      match parseSource text with
      | .error error => some (refusal path (.unparsable error) input)
      | .ok p => runProgram fuel p input := by
  rw [invoke_of_read harguments hfile]
  simp only [planContent, loadProgram, hdecode, bind, Except.bind]
  cases parseSource text <;> rfl

/-! ### What is not decoded -/

/-- What is not the encoding of a text has a first ill-formed sequence. -/
theorem not_encoded_iff :
    (¬ ∃ source : String, content = source.toUTF8.data.toList) ↔
      ∃ (before : String) (rest : List UInt8) (reason : String),
        content = before.toUTF8.data.toList ++ rest ∧ Text.Utf8.IllFormed rest reason := by
  constructor
  · intro hnone
    rcases Text.Utf8.encoded_or_illFormed content with
      ⟨text, rfl⟩ | ⟨before, rest, reason, rfl, hill⟩
    · refine absurd ⟨String.ofList text, ?_⟩ hnone
      rw [Text.Utf8.data_toUTF8, String.toList_ofList]
    · refine ⟨String.ofList before, rest, reason, ?_, hill⟩
      rw [Text.Utf8.data_toUTF8, String.toList_ofList]
  · rintro ⟨before, rest, reason, rfl, hill⟩ ⟨source, hsource⟩
    obtain ⟨defect, -, hdefect⟩ := hill.exists_decode_eq_error before.toList
    rw [← Text.Utf8.data_toUTF8, hsource, Text.Utf8.decode_toUTF8] at hdefect
    cases hdefect

/-- The first ill-formed sequence decides how the call ends. -/
theorem invoke_of_illFormed {before : String} {rest : List UInt8} {reason : String}
    (harguments : sourcePath arguments = .ok path)
    (hfile : read path = .ok (before.toUTF8.data.toList ++ rest))
    (hill : Text.Utf8.IllFormed rest reason) (fuel : Nat) (input : List UInt8) :
    invoke fuel read arguments input =
      some ⟨1, [], "Source file " ++ path ++ " is not valid UTF-8: " ++ reason ++ "\n", input,
        none⟩ := by
  obtain ⟨defect, rfl, hdefect⟩ := hill.exists_decode_eq_error before.toList
  rw [← Text.Utf8.data_toUTF8] at hdefect
  rw [invoke_of_read harguments hfile]
  simp only [planContent, loadProgram, decodeSource, hdefect, bind, Except.bind]
  rfl

/-- A call with a source file that can be read. The content is parsed exactly if it is the encoding
of a text, and then that text is what is parsed, with its line breaks unified: but for carriage
returns and line feeds it is the same text, and there is no carriage return in it. Any other content
is the encoding of a text with an ill-formed sequence behind it; whatever that text is, the call
ends with the status 1, writes and reads nothing, and gives the reason for which the sequence is
ill-formed. -/
theorem source_file_has_to_be_encoded (harguments : sourcePath arguments = .ok path)
    (hfile : read path = .ok content) (fuel : Nat) (input : List UInt8) :
    ((∃ text, decodeSource content = .ok text) ↔
        ∃ source : String, content = source.toUTF8.data.toList) ∧
      (∀ source : String, content = source.toUTF8.data.toList → ∃ text : String,
        decodeSource content = .ok text ∧
        text = String.ofList (Text.LineBreak.unify source.toList) ∧
        (text.toList.filter fun c ↦ c ≠ '\r' ∧ c ≠ '\n') =
          (source.toList.filter fun c ↦ c ≠ '\r' ∧ c ≠ '\n') ∧
        '\r' ∉ text.toList ∧
        invoke fuel read arguments input =
          match parseSource text with
          | .error error => some (refusal path (.unparsable error) input)
          | .ok p => runProgram fuel p input) ∧
      ((¬ ∃ source : String, content = source.toUTF8.data.toList) ↔
        ∃ (before : String) (rest : List UInt8) (reason : String),
          content = before.toUTF8.data.toList ++ rest ∧ Text.Utf8.IllFormed rest reason) ∧
      ∀ (before : String) (rest : List UInt8) (reason : String),
        content = before.toUTF8.data.toList ++ rest → Text.Utf8.IllFormed rest reason →
        invoke fuel read arguments input =
          some ⟨1, [], "Source file " ++ path ++ " is not valid UTF-8: " ++ reason ++ "\n", input,
            none⟩ := by
  refine ⟨?_, fun source hsource ↦ ?_, not_encoded_iff, fun before rest reason hcontent hill ↦ ?_⟩
  · simp only [decodeSource_eq_ok_iff]
    constructor
    · rintro ⟨text, source, hsource, -⟩
      exact ⟨source, hsource⟩
    · rintro ⟨source, hsource⟩
      exact ⟨_, source, hsource, rfl⟩
  · have hdecode := decodeSource_eq_ok_iff.mpr ⟨source, hsource, rfl⟩
    refine ⟨_, hdecode, rfl, ?_, ?_, invoke_of_decodeSource harguments hfile hdecode fuel input⟩
    · rw [String.toList_ofList]
      exact Text.LineBreak.filter_unify (by decide) (by decide) source.toList
    · rw [String.toList_ofList]
      exact Text.LineBreak.return_not_mem_unify source.toList
  · rw [hcontent] at hfile
    exact invoke_of_illFormed harguments hfile hill fuel input

/-- A program in front of a byte that nothing starts with, of a surrogate, and of a character that
the end of the file cuts off. -/
theorem source_file_has_to_be_encoded_surrogate_cut_off :
    sourcePath ["/tmp/p.bf"] = .ok "/tmp/p.bf" ∧
      Reader.single "/tmp/p.bf" [0x2b, 0xff, 0x2e] "/tmp/p.bf" = .ok [0x2b, 0xff, 0x2e] ∧
      (¬ ∃ source : String, [0x2b, 0xff, 0x2e] = source.toUTF8.data.toList) ∧
      invoke 9 (.single "/tmp/p.bf" [0x2b, 0xff, 0x2e]) ["/tmp/p.bf"] [6] =
        some ⟨1, [], "Source file /tmp/p.bf is not valid UTF-8: invalid start byte\n", [6], none⟩ ∧
      invoke 9 (.single "/tmp/p.bf" [0x2b, 0x2e, 0xed, 0xa0, 0x80]) ["/tmp/p.bf"] [6] =
        some ⟨1, [], "Source file /tmp/p.bf is not valid UTF-8: invalid continuation byte\n", [6],
          none⟩ ∧
      invoke 9 (.single "/tmp/p.bf" [0x2b, 0x2e, 0xf0, 0x90]) ["/tmp/p.bf"] [6] =
        some ⟨1, [], "Source file /tmp/p.bf is not valid UTF-8: unexpected end of data\n", [6],
          none⟩ := by
  have hpath : sourcePath ["/tmp/p.bf"] = .ok "/tmp/p.bf" :=
    sourcePath_singleton (by decide +kernel)
  have hfile (content : List UInt8) := Reader.single_self "/tmp/p.bf" content
  have hstart : Text.Utf8.IllFormed [0xff, 0x2e] "invalid start byte" :=
    .start (by decide) [0x2e]
  have hlow : Text.Utf8.IllFormed [0xed, 0xa0, 0x80] "invalid continuation byte" :=
    .continuation rfl (by decide) (Text.Utf8.continued_nil _) (by decide) [0x80]
  have hshort : Text.Utf8.IllFormed [0xf0, 0x90] "unexpected end of data" :=
    .truncated rfl (by decide) ((Text.Utf8.continued_nil _).concat (by decide))
  obtain ⟨-, -, hnone, hinvoke⟩ :=
    source_file_has_to_be_encoded hpath (hfile [0x2b, 0xff, 0x2e]) 9 [6]
  obtain ⟨-, -, -, hcontinuation⟩ :=
    source_file_has_to_be_encoded hpath (hfile [0x2b, 0x2e, 0xed, 0xa0, 0x80]) 9 [6]
  obtain ⟨-, -, -, htruncated⟩ :=
    source_file_has_to_be_encoded hpath (hfile [0x2b, 0x2e, 0xf0, 0x90]) 9 [6]
  exact ⟨hpath, hfile _, hnone.mpr ⟨"+", _, _, by decide +kernel, hstart⟩,
    hinvoke "+" _ _ (by decide +kernel) hstart, hcontinuation "+." _ _ (by decide +kernel) hlow,
    htruncated "+." _ _ (by decide +kernel) hshort⟩

/-! ### Symbols among the bytes -/

/-- What is parsed of a file are its bytes that are symbols. No byte of a longer character is one,
and neither does a line break make a difference. So the bracket that a report is about is found
among the bytes of the file, with as many symbols in front of it as its position says. -/
theorem symbol_bytes_are_opcodes (harguments : sourcePath arguments = .ok path)
    (hfile : read path = .ok content)
    (hencoded : ∃ source : String, content = source.toUTF8.data.toList) (fuel : Nat)
    (input : List UInt8) :
    (∃ text, decodeSource content = .ok text ∧
        scan text = content.filterMap Opcode.ofByte?) ∧
      (invoke fuel read arguments input =
        match parse (content.filterMap Opcode.ofByte?) with
        | .error error => some (refusal path (.unparsable error) input)
        | .ok p => runProgram fuel p input) ∧
      ∀ error, parse (content.filterMap Opcode.ofByte?) = .error error →
        ∃ offset b, content[offset]? = some b ∧ Opcode.ofByte? b = some error.bracket ∧
          (content.take offset).countP (fun b ↦ (Opcode.ofByte? b).isSome) = error.position := by
  obtain ⟨source, hsource⟩ := hencoded
  have hdecode := decodeSource_eq_ok_iff.mpr ⟨source, hsource, rfl⟩
  have hsymbols := symbols_unify source.toList
  rw [String.ofList_toList] at hsymbols
  have hscan : scan (String.ofList (Text.LineBreak.unify source.toList)) =
      content.filterMap Opcode.ofByte? := by
    rw [scan_eq_iff.mpr (hsymbols.trans (map_symbol_scan source).symm), hsource,
      scan_eq_filterMap_ofByte?]
  refine ⟨⟨_, hdecode, hscan⟩, ?_, fun error hparse ↦ ?_⟩
  · rw [invoke_of_decodeSource harguments hfile hdecode, parseSource, hscan]
  · exact exists_getElem?_of_filterMap (isLeast_of_parse_error hparse).2

/-- A directory with one file. -/
def FileTree.single (name : String) (content : List UInt8) : FileTree where
  entries := [([name], .file content)]

/-- A byte order mark, a line break and two characters of several bytes stand around `+]`. The
bracket is the ninth byte and the second symbol. -/
theorem symbol_bytes_are_opcodes_byte_order_mark :
    sourcePath ["p"] = .ok "p" ∧
      (FileTree.single "p" "\ufeff+é\r\n]😀".toUTF8.data.toList).read "p" =
        .ok "\ufeff+é\r\n]😀".toUTF8.data.toList ∧
      invoke 9 (FileTree.single "p" "\ufeff+é\r\n]😀".toUTF8.data.toList) ["p"] [6] =
        some (refusal "p" (.unparsable (.unmatchedEnd 1)) [6]) ∧
      ∃ offset b, "\ufeff+é\r\n]😀".toUTF8.data.toList[offset]? = some b ∧
        Opcode.ofByte? b = some .loopEnd ∧
        ("\ufeff+é\r\n]😀".toUTF8.data.toList.take offset).countP
          (fun b ↦ (Opcode.ofByte? b).isSome) = 1 := by
  have hpath : sourcePath ["p"] = .ok "p" := sourcePath_singleton (by decide +kernel)
  have hfile : (FileTree.single "p" "\ufeff+é\r\n]😀".toUTF8.data.toList).read "p" =
      .ok "\ufeff+é\r\n]😀".toUTF8.data.toList := by decide +kernel
  have hparse : parse ("\ufeff+é\r\n]😀".toUTF8.data.toList.filterMap Opcode.ofByte?) =
      .error (.unmatchedEnd 1) := by decide +kernel
  obtain ⟨-, hinvoke, hplace⟩ := symbol_bytes_are_opcodes hpath hfile ⟨_, rfl⟩ 9 [6]
  rw [hparse] at hinvoke
  exact ⟨hpath, hfile, hinvoke, hplace _ hparse⟩

end CommandLine

end Brainfuck
