import Brainfuck.Proofs.RequestBody
import Brainfuck.Proofs.Spelling
import Brainfuck.Proofs.StraightLine

/-!
Runs that are chained by their texts. Bytes become a text one character for each, and a text becomes
bytes again exactly if the check of an input lets it pass (`Text.Byte.exists_ofText?_iff`,
`inputOfText_eq_ok_iff`). The output of a run is made of bytes, so it always passes, and a
request that brings it runs on the very bytes that were written, under every framework that keeps
the laws (`run_requests_compose`).

The simplest relay is a row of reads and writes in turn. Each pair of them takes one byte from
the input and puts it behind the output (`Machine.OnTape.applyAll_read_write`), and as many pairs
as there are bytes leave nothing (`Machine.OnTape.applyAll_echo`).
-/

set_option autoImplicit false
set_option relaxedAutoImplicit false

namespace Brainfuck

namespace Text.Byte

variable {text : String} {bytes : List UInt8}

theorem ofChar?_eq_some_iff {c : Char} {b : UInt8} : ofChar? c = some b ↔ c = toChar b := by
  constructor
  · intro hc
    unfold ofChar? at hc
    by_cases hlt : c.toNat < 256
    · rw [if_pos hlt, Option.some.injEq] at hc
      rw [← hc, toChar, UInt8.toNat_ofNat_of_lt' hlt, Char.ofNat_toNat]
    · rw [if_neg hlt] at hc
      cases hc
  · rintro rfl
    exact ofChar?_toChar b

/-- The bytes of a text are those that it is the text of. -/
theorem ofText?_eq_some_iff : ofText? text = some bytes ↔ toText bytes = text := by
  constructor
  · intro htext
    rw [← String.ofList_toList (s := text), toText]
    unfold ofText? at htext
    congr 1
    generalize text.toList = cs at htext
    induction cs generalizing bytes with
    | nil =>
      cases htext
      rfl
    | cons c cs ih =>
      simp only [List.mapM_cons, Option.bind_eq_bind, Option.bind_eq_some_iff, Option.pure_def,
        Option.some.injEq] at htext
      obtain ⟨b, hc, bytes', hcs, rfl⟩ := htext
      rw [List.map_cons, ih hcs, ofChar?_eq_some_iff.mp hc]
  · rintro rfl
    exact ofText?_toText bytes

theorem narrow_toText (bytes : List UInt8) : Narrow (toText bytes) := by
  intro c hc
  rw [toText, String.toList_ofList] at hc
  obtain ⟨b, -, rfl⟩ := List.mem_map.mp hc
  rw [toNat_toChar]
  exact Nat.le_of_lt_succ b.toNat_lt

/-- The characters of a text made of bytes have their numbers. -/
theorem map_toNat_toText (bytes : List UInt8) :
    (toText bytes).toList.map Char.toNat = bytes.map UInt8.toNat := by
  rw [toText, String.toList_ofList, List.map_map]
  exact List.map_congr_left fun b _ ↦ toNat_toChar b

theorem length_codePoints (text : String) : (codePoints text).length = text.length := by
  rw [codePoints, List.length_map, String.length_toList]

theorem exists_ofText?_iff : (∃ bytes, ofText? text = some bytes) ↔ Narrow text := by
  constructor
  · rintro ⟨bytes, htext⟩
    rw [← ofText?_eq_some_iff.mp htext]
    exact narrow_toText bytes
  · intro hnarrow
    exact ⟨_, ofText?_eq_codePoints hnarrow⟩

end Text.Byte

/-! ### Reading and writing in turn -/

namespace Machine

variable {m : Machine} {size : Nat}

/-- A byte is read, and written as it is. -/
theorem OnTape.applyAll_read_write (hm : m.OnTape size) {b : UInt8} {rest : List UInt8}
    (hinput : m.input = b :: rest) :
    ∃ m', m.applyAll [.read, .write] = .finished m' ∧ m'.OnTape size ∧ m'.input = rest ∧
      m'.output = m.output.push b := by
  obtain ⟨i, hslot⟩ := hm.exists_slot
  have hread : m.apply .read = .finished { m.setCell i b with input := rest } :=
    (Effect.read hinput hslot).apply_eq
  have hcell : ({ m.setCell i b with input := rest } : Machine).cell? = some b :=
    cell?_setCell hslot b
  have hwrite := (Effect.write hcell).apply_eq
  refine ⟨{ m.setCell i b with input := rest, output := m.output.push b }, ?_,
    (hm.setCell i b).of_eq rfl rfl, rfl, rfl⟩
  simp only [applyAll, hread, hwrite]
  rfl

/-- As many bytes are read and written as the pair is repeated. -/
theorem OnTape.applyAll_echo (hm : m.OnTape size) {bytes rest : List UInt8}
    (hinput : m.input = bytes ++ rest) :
    ∃ m', m.applyAll (List.replicate bytes.length [.read, .write]).flatten = .finished m' ∧
      m'.input = rest ∧ m'.output.toList = m.output.toList ++ bytes := by
  induction bytes generalizing m with
  | nil => exact ⟨m, rfl, hinput, (List.append_nil _).symm⟩
  | cons b bytes ih =>
    obtain ⟨m₁, hpair, hm₁, hinput₁, houtput₁⟩ := hm.applyAll_read_write hinput
    obtain ⟨m', hrest, hinput', houtput'⟩ := ih hm₁ hinput₁
    refine ⟨m', ?_, hinput', ?_⟩
    · rw [List.length_cons, List.replicate_succ, List.flatten_cons, applyAll_append hpair, hrest]
    · rw [houtput', houtput₁, Array.toList_push, List.append_assoc, List.singleton_append]

end Machine

theorem parseSource_echo (n : Nat) :
    parseSource (String.join (List.replicate n ",.")) =
      .ok ((List.replicate n [Command.read, .write]).flatten.map .command) := by
  rw [parseSource_eq_ok_iff]
  induction n with
  | zero => rfl
  | succ n ih =>
    rw [List.replicate_succ, String.join_cons, symbols_append, ih]
    rfl

/-- A source that reads and writes in turn writes what it is given. -/
theorem exists_run_echo (bytes : List UInt8) :
    ∃ fuel, run fuel (String.join (List.replicate bytes.length ",."))
      (bytes.map fun b ↦ (b.toNat : Int)) = some (.ok bytes) := by
  obtain ⟨m', hfinished, -, houtput⟩ :=
    (Machine.onTape_fresh bytes).applyAll_echo (List.append_nil bytes).symm
  obtain ⟨fuel, hexecute⟩ :=
    exists_execute_commands_iff.mpr (congrArg (·.map Machine.flush) hfinished)
  refine ⟨fuel, ?_⟩
  rw [run_of_parse_ok (parseSource_echo bytes.length), hexecute, Option.map_some]
  simp only [Outcome.map, Outcome.answer, Machine.output_flush, houtput]
  rfl

/-! ### Answers as inputs -/

namespace Api

open Text.Byte (Narrow codePoints)

variable {ρ : Type} {F : Framework ρ} {r : ρ} {code input : String} {answer : Answer}

/-- A request is answered with a run on the bytes of its input. -/
theorem answer?_of_ofText? (hF : F.Lawful) {bytes : List UInt8} (hr : F.Brings r code input)
    (hinput : Text.Byte.ofText? input = some bytes) (fuel : Nat) :
    F.answer? (application fuel) r =
      (run fuel code (bytes.map fun b ↦ (b.toNat : Int))).map fun ending ↦
        F.send (ofRun ending) := by
  have hnarrow := Text.Byte.exists_ofText?_iff.mp ⟨bytes, hinput⟩
  rw [Text.Byte.ofText?_eq_codePoints hnarrow, Option.some.injEq] at hinput
  rw [answer?_of_narrow hF hr hnarrow, hinput]

/-- What an answer with the status 200 holds. -/
theorem Framework.AnsweredWith.exists_output (h : F.AnsweredWith r answer) (hF : F.Lawful)
    (hr : F.Brings r code input) (hstatus : answer.status = 200) :
    ∃ (bytes output : List UInt8) (fuel : Nat), Text.Byte.ofText? input = some bytes ∧
      run fuel code (bytes.map fun b ↦ (b.toNat : Int)) = some (.ok output) ∧
      answer.body? = some (.object [("output", .string (Text.Byte.toText output)),
        ("output_bytes", .array (output.map fun b ↦ .integer b.toNat))]) := by
  have hnarrow : Narrow input := by
    by_contra hwide
    rw [(status_eq_unprocessable_iff hF hr h).mpr hwide] at hstatus
    cases hstatus
  obtain ⟨status, body, rfl, hrule⟩ := h.exists_runAnswer hF hr hnarrow
  obtain rfl : status = 200 := hstatus
  cases hrule with
  | @ran _ fuel output hrun =>
    rw [← Text.Byte.map_toNat_codePoints hnarrow] at hrun
    exact ⟨_, output, fuel, Text.Byte.ofText?_eq_codePoints hnarrow, hrun, rfl⟩

/-- Requests to run can be chained by their texts. A text can be made into bytes exactly if it is
accepted as an input, and then it is the text of these bytes. Every code and every input is
brought by a request to the server. Under every framework that keeps the laws, if a request is
answered with an output, then the numbers beside the output are its code points, the output is
accepted as an input, and a request that brings it is answered with the run of its own code on
the bytes that the first run has written. So the code that reads and writes as often as the
input has characters is answered with the input. -/
theorem run_requests_compose :
    (∀ text : String,
      ((∃ bytes, Text.Byte.ofText? text = some bytes) ↔ inputOfText text = .ok text) ∧
        ∀ bytes, Text.Byte.ofText? text = some bytes → Text.Byte.toText bytes = text) ∧
      (∀ code input : String, ∃ r : Request, server.runTexts? r = some (code, some input)) ∧
      (∀ {ρ : Type} (F : Framework ρ), F.Lawful →
        ∀ (r : ρ) (code input : String) (answer : Answer),
        F.Brings r code input → F.AnsweredWith r answer → answer.status = 200 →
        ∃ (bytes : List UInt8) (fuel : Nat) (output : List UInt8) (text : String),
          Text.Byte.ofText? input = some bytes ∧
          run fuel code (bytes.map fun b ↦ (b.toNat : Int)) = some (.ok output) ∧
          answer.body? = some (.object [("output", .string text),
            ("output_bytes", .array (output.map fun b ↦ .integer b.toNat))]) ∧
          text.toList.map Char.toNat = output.map UInt8.toNat ∧
          inputOfText text = .ok text ∧ Text.Byte.ofText? text = some output ∧
          ∀ (next : ρ) (code' : String), F.Brings next code' text → ∀ fuel',
            F.answer? (application fuel') next =
              (run fuel' code' (output.map fun b ↦ (b.toNat : Int))).map fun ending ↦
                F.send (ofRun ending)) ∧
      ∀ {ρ : Type} (F : Framework ρ), F.Lawful →
        ∀ (r : ρ) (text : String), (∀ c ∈ text.toList, c.toNat ≤ 255) →
        F.Brings r (String.join (List.replicate text.length ",.")) text →
        F.AnsweredWith r ⟨200, some (.object [("output", .string text),
          ("output_bytes", .array (text.toList.map fun c ↦ .integer c.toNat))])⟩ := by
  refine ⟨fun text ↦ ⟨?_, fun bytes htext ↦ Text.Byte.ofText?_eq_some_iff.mp htext⟩,
    fun code input ↦ ⟨_, runTexts?_toRun code input⟩, ?_, ?_⟩
  · rw [inputOfText_eq_ok_iff, Text.Byte.exists_ofText?_iff, and_iff_left rfl]
  · intro ρ F hF r code input answer hr hanswer hstatus
    obtain ⟨bytes, output, fuel, hinput, hrun, hbody⟩ := hanswer.exists_output hF hr hstatus
    have htext := Text.Byte.ofText?_toText output
    refine ⟨bytes, fuel, output, _, hinput, hrun, hbody, ?_,
      inputOfText_eq_ok_iff.mpr ⟨Text.Byte.narrow_toText output, rfl⟩, htext, ?_⟩
    · exact Text.Byte.map_toNat_toText output
    · exact fun next code' hnext fuel' ↦ answer?_of_ofText? hF hnext htext fuel'
  · intro ρ F hF r text hnarrow hr
    have hbytes := Text.Byte.ofText?_eq_codePoints hnarrow
    obtain ⟨fuel, hrun⟩ := exists_run_echo (codePoints text)
    have hanswer := answer?_of_ofText? hF hr hbytes fuel
    rw [← Text.Byte.length_codePoints, hrun, Option.map_some, send_output hF] at hanswer
    have hnumbers : (codePoints text).map (fun b ↦ Json.integer b.toNat) =
        text.toList.map fun c ↦ .integer c.toNat := by
      have hmap := congrArg (List.map Json.integer) (Text.Byte.map_toNat_codePoints hnarrow)
      rwa [List.map_map, List.map_map] at hmap
    rw [hnumbers, Text.Byte.ofText?_eq_some_iff.mp hbytes] at hanswer
    exact ⟨fuel, hanswer⟩

/-- A run that adds one to a byte, the same code on its output, and an echo of two bytes. -/
theorem run_requests_compose_successors :
    server.Lawful ∧ ∃ first second echo : Request,
      server.Brings first ",+." "é" ∧
      server.AnsweredWith first
        ⟨200, some (.object [("output", .string "ê"), ("output_bytes", .array [.integer 234])])⟩ ∧
      server.Brings second ",+." "ê" ∧
      server.answer? (application 9) second =
        (run 9 ",+." [234]).map (fun ending ↦ server.send (ofRun ending)) ∧
      (∀ c ∈ "éê".toList, c.toNat ≤ 255) ∧ server.Brings echo ",.,." "éê" ∧
      server.AnsweredWith echo ⟨200, some (.object [("output", .string "éê"),
        ("output_bytes", .array [.integer 233, .integer 234])])⟩ := by
  obtain ⟨-, hsend, hrelay, hecho⟩ := run_requests_compose
  obtain ⟨first, hfirst⟩ := hsend ",+." "é"
  obtain ⟨second, hsecond⟩ := hsend ",+." "ê"
  obtain ⟨echo, hechoTexts⟩ := hsend ",.,." "éê"
  have hrun : run 9 ",+." ("é".toList.map fun c ↦ (c.toNat : Int)) = some (.ok [234]) := by
    decide +kernel
  have hrule := RunAnswer.ran (Text.Byte.find?_eq_none_iff.mp (by decide +kernel)) hrun
  have hanswer := hrule.answeredWith server_lawful (.inl hfirst)
  obtain ⟨-, -, output, text, -, -, hbody, -, -, houtput, hnext⟩ :=
    hrelay server server_lawful first _ _ _ (.inl hfirst) hanswer rfl
  obtain rfl : Text.Byte.toText [234] = text := by
    simp only [Option.some.injEq, Json.object.injEq, List.cons.injEq, Prod.mk.injEq,
      Json.string.injEq] at hbody
    exact hbody.1.2
  obtain rfl : [234] = output := by
    rw [Text.Byte.ofText?_toText] at houtput
    exact Option.some.inj houtput
  have htext : Text.Byte.toText [234] = "ê" := by decide +kernel
  rw [htext] at hanswer hnext
  have hnarrow : ∀ c ∈ "éê".toList, c.toNat ≤ 255 :=
    Text.Byte.find?_eq_none_iff.mp (by decide +kernel)
  exact ⟨server_lawful, first, second, echo, .inl hfirst, hanswer, .inl hsecond,
    hnext second _ (.inl hsecond) 9, hnarrow, .inl hechoTexts,
    hecho server server_lawful echo "éê" hnarrow (.inl hechoTexts)⟩

end Api

end Brainfuck
