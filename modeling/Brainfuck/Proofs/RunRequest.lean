import Brainfuck.Proofs.ServerLaws
import Brainfuck.Proofs.SourceRun

/-!
Requests to run a source text. Such a request brings two texts, the code and the input, and
there are four kinds of answers to it, tried in this order: the input holds a character that
is no byte (422), the code does not parse (400), the run fails (409), or there is an
output (200). `run_request_answers` says so for every framework that keeps the laws. What is said
with the status 422 is up to the framework; all other answers are given by the rules of
`RunAnswer`, with their bodies. There is no fifth kind: the check of the input leaves
only bytes, and the pointer of a fresh machine never leaves the tape, so nothing can go wrong
that no program is to blame for.
-/

set_option autoImplicit false
set_option relaxedAutoImplicit false

namespace Brainfuck

namespace Text.Byte

/-- Every character of the text is a byte. -/
def Narrow (text : String) : Prop :=
  ∀ c ∈ text.toList, c.toNat ≤ 255

/-- The code points of a text, which are to be bytes. -/
def codePoints (text : String) : List UInt8 :=
  text.toList.map fun c ↦ UInt8.ofNat c.toNat

variable {text : String}

theorem find?_eq_none_iff : (text.toList.find? fun c ↦ 255 < c.toNat) = none ↔ Narrow text := by
  simp only [List.find?_eq_none, decide_eq_true_eq, Nat.not_lt, Narrow]

theorem not_narrow_iff : ¬ Narrow text ↔ ∃ c ∈ text.toList, 255 < c.toNat := by
  simp only [Narrow, Classical.not_forall, Nat.not_le, exists_prop]

theorem ofText?_eq_codePoints (hnarrow : Narrow text) : ofText? text = some (codePoints text) := by
  unfold ofText? codePoints
  unfold Narrow at hnarrow
  generalize text.toList = cs at hnarrow
  induction cs with
  | nil => rfl
  | cons c cs ih =>
    have hc : c.toNat < 256 := Nat.lt_succ_of_le (hnarrow c List.mem_cons_self)
    simp [ofChar?, hc, ih fun d hd ↦ hnarrow d (List.mem_cons_of_mem c hd)]

theorem map_toNat_codePoints (hnarrow : Narrow text) :
    ((codePoints text).map fun b ↦ (b.toNat : Int)) =
      text.toList.map fun c ↦ (c.toNat : Int) := by
  unfold codePoints
  rw [List.map_map]
  apply List.map_congr_left
  intro c hc
  have hlt : c.toNat < 256 := Nat.lt_succ_of_le (hnarrow c hc)
  simp only [Function.comp_apply, UInt8.toNat_ofNat_of_lt' hlt]

end Text.Byte

open Text.Byte (Narrow codePoints)

namespace Api

variable {ρ : Type}

/-- A request to run brings these texts. An input that is left out is empty. -/
def Framework.Brings (F : Framework ρ) (r : ρ) (code input : String) : Prop :=
  F.runTexts? r = some (code, some input) ∨ F.runTexts? r = some (code, none) ∧ input = ""

/-- With the application of this server, and enough steps for it, the request is answered in this
way. -/
def Framework.AnsweredWith (F : Framework ρ) (r : ρ) (answer : Answer) : Prop :=
  ∃ fuel, F.answer? (application fuel) r = some answer

variable {F : Framework ρ} {r : ρ} {code input : String} {answer : Answer}

/-! ### The check and the run -/

theorem inputOfText_eq_ok_iff {text accepted : String} :
    inputOfText text = .ok accepted ↔ Narrow text ∧ accepted = text := by
  rw [← Text.Byte.find?_eq_none_iff, inputOfText]
  cases text.toList.find? fun c ↦ 255 < c.toNat <;> simp [eq_comm]

theorem exists_inputOfText_eq_error (hwide : ¬ Narrow input) :
    ∃ reason, inputOfText input = .error reason := by
  cases hcheck : inputOfText input with
  | ok accepted => exact absurd (inputOfText_eq_ok_iff.mp hcheck).1 hwide
  | error reason => exact ⟨reason, rfl⟩

theorem runCode_of_narrow (hnarrow : Narrow input) (fuel : Nat) :
    runCode fuel code input =
      (run fuel code ((codePoints input).map fun b ↦ (b.toNat : Int))).map ofRun := by
  simp only [runCode, Text.Byte.ofText?_eq_codePoints hnarrow]

/-- A run of bytes ends in a way that its program is to blame for. -/
theorem ofRun_ne_crashed {bytes : List UInt8} {fuel : Nat} {ending : Except Failure (List UInt8)}
    (hrun : run fuel code (bytes.map fun b ↦ (b.toNat : Int)) = some ending) :
    ofRun ending ≠ .crashed := by
  rcases run_cases hrun with ⟨error, -, rfl⟩ | ⟨p, o, -, hexecute, rfl⟩
  · simp [ofRun]
  · cases o with
    | finished m => simp [Outcome.answer, ofRun]
    | failed fault m =>
      obtain ⟨last, c, -, -, -, hblocked, -⟩ :=
        exists_last_of_execute_failed (Machine.onTape_fresh bytes) hexecute
      obtain ⟨d, hd⟩ := hblocked.ofCommand.exists_diagnostic
      simp [Outcome.answer, ofRun, Failure.diagnostic?, hd]

/-- What the check lets pass does not crash a run. -/
theorem runCode_ne_crashed (hnarrow : Narrow input) (fuel : Nat) :
    runCode fuel code input ≠ some .crashed := by
  rw [runCode_of_narrow hnarrow]
  intro hcrashed
  obtain ⟨ending, hrun, hending⟩ := Option.map_eq_some_iff.mp hcrashed
  exact ofRun_ne_crashed hrun hending

/-! ### What there is to answer -/

theorem answer?_of_wide (hF : F.Lawful) (hr : F.Brings r code input) (hwide : ¬ Narrow input)
    (fuel : Nat) :
    ∃ answer, F.answer? (application fuel) r = some answer ∧ answer.status = 422 := by
  obtain ⟨reason, hcheck⟩ := exists_inputOfText_eq_error hwide
  rcases hr with hr | ⟨-, rfl⟩
  · exact hF.answer?_rejected hr hcheck
  · cases hcheck

theorem answer?_of_narrow (hF : F.Lawful) (hr : F.Brings r code input) (hnarrow : Narrow input)
    (fuel : Nat) :
    F.answer? (application fuel) r =
      (run fuel code ((codePoints input).map fun b ↦ (b.toNat : Int))).map
        fun ending ↦ F.send (ofRun ending) := by
  have hanswer : F.answer? (application fuel) r = (runCode fuel code input).map F.send := by
    rcases hr with hr | ⟨hr, rfl⟩
    · exact hF.answer?_accepted hr (inputOfText_eq_ok_iff.mpr ⟨hnarrow, rfl⟩)
    · exact hF.answer?_default hr
  rw [hanswer, runCode_of_narrow hnarrow, Option.map_map]
  rfl

theorem answer?_of_unparsable (hF : F.Lawful) (hr : F.Brings r code input)
    (hnarrow : Narrow input) {error : ParseError} (hparse : parse (scan code) = .error error)
    (fuel : Nat) :
    F.answer? (application fuel) r = some (F.send (ofRun (.error (.parse error)))) := by
  rw [answer?_of_narrow hF hr hnarrow, run_of_parse_error hparse]
  rfl

theorem answer?_of_parsed (hF : F.Lawful) (hr : F.Brings r code input) (hnarrow : Narrow input)
    {p : Program} (hparse : parse (scan code) = .ok p) (fuel : Nat) :
    F.answer? (application fuel) r =
      (execute fuel p (.fresh (codePoints input))).map fun o ↦ F.send (ofRun o.answer) := by
  rw [answer?_of_narrow hF hr hnarrow, run_of_parse_ok hparse, Option.map_map]
  rfl

/-- A request is answered unless its run goes on for ever. -/
theorem exists_answeredWith_iff (hF : F.Lawful) (hr : F.Brings r code input) :
    (∃ answer, F.AnsweredWith r answer) ↔
      (∃ c ∈ input.toList, 255 < c.toNat) ∨ (∃ error, parse (scan code) = .error error) ∨
        ∃ p ending, parse (scan code) = .ok p ∧
          p.EndsWith (.fresh (codePoints input)) ending := by
  by_cases hnarrow : Narrow input
  · have hnotWide : ¬ ∃ c ∈ input.toList, 255 < c.toNat :=
      fun hwide ↦ Text.Byte.not_narrow_iff.mpr hwide hnarrow
    rw [or_iff_right hnotWide]
    cases hparse : parse (scan code) with
    | error error =>
      exact iff_of_true ⟨_, 0, answer?_of_unparsable hF hr hnarrow hparse 0⟩ (.inl ⟨error, rfl⟩)
    | ok p =>
      constructor
      · rintro ⟨answer, fuel, hanswer⟩
        rw [answer?_of_parsed hF hr hnarrow hparse] at hanswer
        obtain ⟨o, hexecute, -⟩ := Option.map_eq_some_iff.mp hanswer
        exact .inr ⟨p, o.ending, rfl, fuel, o, hexecute, rfl⟩
      · rintro (⟨error, herror⟩ | ⟨p', ending, hok, fuel, o, hexecute, -⟩)
        · cases herror
        · obtain rfl : p = p' := Except.ok.inj hok
          refine ⟨F.send (ofRun o.answer), fuel, ?_⟩
          rw [answer?_of_parsed hF hr hnarrow hparse, hexecute, Option.map_some]
  · obtain ⟨answer, hanswer, -⟩ := answer?_of_wide hF hr hnarrow 0
    exact iff_of_true ⟨answer, 0, hanswer⟩ (.inl (Text.Byte.not_narrow_iff.mp hnarrow))

/-- Only what is said about a rejected input may depend on the number of steps. -/
theorem Framework.AnsweredWith.unique {answer' : Answer} (h : F.AnsweredWith r answer)
    (h' : F.AnsweredWith r answer') (hF : F.Lawful) (hr : F.Brings r code input)
    (hnarrow : Narrow input) : answer = answer' := by
  obtain ⟨fuel, hanswer⟩ := h
  obtain ⟨fuel', hanswer'⟩ := h'
  rw [answer?_of_narrow hF hr hnarrow] at hanswer hanswer'
  obtain ⟨ending, hrun, rfl⟩ := Option.map_eq_some_iff.mp hanswer
  obtain ⟨ending', hrun', rfl⟩ := Option.map_eq_some_iff.mp hanswer'
  rw [run_unique hrun hrun']

/-! ### The answers -/

/-- The body of an answer about a program that fails. -/
def failureBody (label message : String) (position : Json) : Json :=
  .object [("detail", .object [("error", .string label), ("message", .string message),
    ("position", position)])]

/-- The status and the body of an answer to a request to run `code` on `input`, if all characters
of the input are bytes. -/
inductive RunAnswer (code input : String) : Nat → Json → Prop
  | unparsable (hnarrow : Narrow input) {error : ParseError}
      (hparse : parse (scan code) = .error error) :
      RunAnswer code input 400 (failureBody error.diagnostic.label error.diagnostic.message
        (.integer error.position))
  | exhausted (hnarrow : Narrow input) {p : Program} {ending : Ending}
      (hparse : parse (scan code) = .ok p)
      (hends : p.EndsWith (.fresh (codePoints input)) ending)
      (hfault : ending.fault? = some .inputExhausted) :
      RunAnswer code input 409 (failureBody "InputExhausted"
        (Diagnostic.message .inputExhausted) .null)
  | outOfBounds (hnarrow : Narrow input) {p : Program} {ending : Ending} {position : Int}
      (hparse : parse (scan code) = .ok p)
      (hends : p.EndsWith (.fresh (codePoints input)) ending)
      (hposition : position = -1 ∨ position = 1024)
      (hfault : ending.fault? = some (.pointerOutOfBounds position 1024)) :
      RunAnswer code input 409 (failureBody "PointerOutOfBounds"
        (Diagnostic.message (.pointerOutOfBounds position 1024)) (.integer position))
  | ran (hnarrow : Narrow input) {fuel : Nat} {output : List UInt8}
      (hrun : run fuel code (input.toList.map fun c ↦ (c.toNat : Int)) = some (.ok output)) :
      RunAnswer code input 200 (.object [("output", .string (Text.Byte.toText output)),
        ("output_bytes", .array (output.map fun b ↦ .integer b.toNat))])

theorem exists_unparsable_iff :
    (∃ body, RunAnswer code input 400 body) ↔
      Narrow input ∧ ∃ error, parse (scan code) = .error error := by
  constructor
  · rintro ⟨body, hanswer⟩
    cases hanswer with
    | unparsable hnarrow hparse => exact ⟨hnarrow, _, hparse⟩
  · rintro ⟨hnarrow, error, hparse⟩
    exact ⟨_, .unparsable hnarrow hparse⟩

theorem exists_failed_iff :
    (∃ body, RunAnswer code input 409 body) ↔
      Narrow input ∧ ∃ p ending fault, parse (scan code) = .ok p ∧
        p.EndsWith (.fresh (codePoints input)) ending ∧ ending.fault? = some fault ∧
        fault.OfCommand 1024 := by
  constructor
  · rintro ⟨body, hanswer⟩
    cases hanswer with
    | exhausted hnarrow hparse hends hfault =>
      exact ⟨hnarrow, _, _, _, hparse, hends, hfault, .inl rfl⟩
    | outOfBounds hnarrow hparse hends hposition hfault =>
      exact ⟨hnarrow, _, _, _, hparse, hends, hfault, .inr ⟨_, hposition, rfl⟩⟩
  · rintro ⟨hnarrow, p, ending, fault, hparse, hends, hfault, rfl | ⟨position, hposition, rfl⟩⟩
    · exact ⟨_, .exhausted hnarrow hparse hends hfault⟩
    · exact ⟨_, .outOfBounds hnarrow hparse hends hposition hfault⟩

theorem exists_ran_iff :
    (∃ body, RunAnswer code input 200 body) ↔ Narrow input ∧ ∃ fuel output,
      run fuel code (input.toList.map fun c ↦ (c.toNat : Int)) = some (.ok output) := by
  constructor
  · rintro ⟨body, hanswer⟩
    cases hanswer with
    | ran hnarrow hrun => exact ⟨hnarrow, _, _, hrun⟩
  · rintro ⟨hnarrow, fuel, output, hrun⟩
    exact ⟨_, .ran hnarrow hrun⟩

variable {status : Nat} {body : Json}

theorem RunAnswer.status_mem (h : RunAnswer code input status body) : status ∈ [400, 409, 200] := by
  cases h <;> decide

theorem RunAnswer.narrow (h : RunAnswer code input status body) : Narrow input := by
  cases h <;> assumption

theorem send_parseError (hF : F.Lawful) (error : ParseError) :
    F.send (ofRun (.error (.parse error))) =
      ⟨400, some (failureBody error.diagnostic.label error.diagnostic.message
        (.integer error.position))⟩ := by
  cases error with
  | unmatchedEnd position => exact hF.send_refused (by decide)
  | unmatchedStart position => exact hF.send_refused (by decide)

theorem send_fault (hF : F.Lawful) {fault : Fault} {d : Diagnostic}
    (hd : fault.diagnostic? = some d) :
    F.send (ofRun (.error (.fault fault))) =
      ⟨409, some (failureBody d.label d.message ((d.position?.map Json.integer).getD .null))⟩ := by
  have hrefused : ofRun (.error (.fault fault)) = .refused 409 (errorDetail d) := by
    simp only [ofRun, Failure.diagnostic?, hd]
  rw [hrefused]
  exact hF.send_refused (by decide)

theorem send_output (hF : F.Lawful) (output : List UInt8) :
    F.send (ofRun (.ok output)) =
      ⟨200, some (.object [("output", .string (Text.Byte.toText output)),
        ("output_bytes", .array (output.map fun b ↦ .integer b.toNat))])⟩ :=
  hF.send_returned rfl

theorem answeredWith_of_endsWith (hF : F.Lawful) (hr : F.Brings r code input)
    (hnarrow : Narrow input) {p : Program} {ending : Ending} {fault : Fault}
    (hparse : parse (scan code) = .ok p)
    (hends : p.EndsWith (.fresh (codePoints input)) ending) (hfault : ending.fault? = some fault) :
    F.AnsweredWith r (F.send (ofRun (.error (.fault fault)))) := by
  obtain ⟨fuel, o, hexecute, rfl⟩ := hends
  refine ⟨fuel, ?_⟩
  rw [answer?_of_parsed hF hr hnarrow hparse, hexecute, Option.map_some,
    Outcome.answer_of_fault? hfault]

/-- What there is a reason for is answered. -/
theorem RunAnswer.answeredWith (h : RunAnswer code input status body) (hF : F.Lawful)
    (hr : F.Brings r code input) : F.AnsweredWith r ⟨status, some body⟩ := by
  cases h with
  | @unparsable hnarrow error hparse =>
    rw [← send_parseError hF]
    exact ⟨0, answer?_of_unparsable hF hr hnarrow hparse 0⟩
  | exhausted hnarrow hparse hends hfault =>
    have hsend : F.send (ofRun (.error (.fault .inputExhausted))) = _ := send_fault hF rfl
    exact hsend ▸ answeredWith_of_endsWith hF hr hnarrow hparse hends hfault
  | @outOfBounds hnarrow p ending position hparse hends _ hfault =>
    have hsend : F.send (ofRun (.error (.fault (.pointerOutOfBounds position 1024)))) = _ :=
      send_fault hF rfl
    exact hsend ▸ answeredWith_of_endsWith hF hr hnarrow hparse hends hfault
  | @ran hnarrow fuel output hrun =>
    rw [← Text.Byte.map_toNat_codePoints hnarrow] at hrun
    refine ⟨fuel, ?_⟩
    rw [answer?_of_narrow hF hr hnarrow, hrun, Option.map_some, send_output hF]

/-- There is a reason for what is answered, once the check has let the input pass. -/
theorem Framework.AnsweredWith.exists_runAnswer (h : F.AnsweredWith r answer) (hF : F.Lawful)
    (hr : F.Brings r code input) (hnarrow : Narrow input) :
    ∃ status body, answer = ⟨status, some body⟩ ∧ RunAnswer code input status body := by
  obtain ⟨fuel, hanswer⟩ := h
  rw [answer?_of_narrow hF hr hnarrow] at hanswer
  obtain ⟨ending, hrun, rfl⟩ := Option.map_eq_some_iff.mp hanswer
  rcases run_cases hrun with ⟨error, hparse, rfl⟩ | ⟨p, o, hparse, hexecute, rfl⟩
  · exact ⟨_, _, send_parseError hF error, .unparsable hnarrow hparse⟩
  have hends : p.EndsWith (.fresh (codePoints input)) o.ending := ⟨fuel, o, hexecute, rfl⟩
  cases o with
  | finished m =>
    rw [Text.Byte.map_toNat_codePoints hnarrow] at hrun
    exact ⟨_, _, send_output hF _, .ran hnarrow hrun⟩
  | failed fault m =>
    obtain ⟨last, c, -, -, -, hblocked, -⟩ :=
      exists_last_of_execute_failed (Machine.onTape_fresh _) hexecute
    rcases hblocked.ofCommand with rfl | ⟨position, hposition, rfl⟩
    · exact ⟨_, _, send_fault hF rfl, .exhausted hnarrow hparse hends rfl⟩
    · exact ⟨_, _, send_fault hF rfl, .outOfBounds hnarrow hparse hends hposition rfl⟩

/-- The rules give the answer to an input that the check lets pass, and no other. -/
theorem runAnswer_iff (hF : F.Lawful) (hr : F.Brings r code input) (h : F.AnsweredWith r answer) :
    RunAnswer code input status body ↔ Narrow input ∧ answer = ⟨status, some body⟩ := by
  constructor
  · intro hanswer
    exact ⟨hanswer.narrow, h.unique (hanswer.answeredWith hF hr) hF hr hanswer.narrow⟩
  · rintro ⟨hnarrow, rfl⟩
    obtain ⟨status', body', heq, hanswer⟩ := h.exists_runAnswer hF hr hnarrow
    cases heq
    exact hanswer

theorem status_eq_unprocessable_iff (hF : F.Lawful) (hr : F.Brings r code input)
    (h : F.AnsweredWith r answer) : answer.status = 422 ↔ ¬ Narrow input := by
  constructor
  · intro hstatus hnarrow
    obtain ⟨status, body, rfl, hanswer⟩ := h.exists_runAnswer hF hr hnarrow
    have hmem := hanswer.status_mem
    obtain rfl : status = 422 := hstatus
    exact absurd hmem (by decide)
  · intro hwide
    obtain ⟨fuel, hanswer⟩ := h
    obtain ⟨answer', hanswer', hstatus⟩ := answer?_of_wide hF hr hwide fuel
    rw [hanswer, Option.some.injEq] at hanswer'
    rw [hanswer', hstatus]

/-- A framework that keeps the laws, and a request to run that brings a code and an input, both of
them strings. The request is answered unless there is a run that goes on for ever, and the run
never crashes on an input that the check lets pass. The status is 422 exactly if a character of
the input is no byte; otherwise it is 400 exactly if the code does not parse; otherwise it is
409 exactly if the run on a fresh machine comes to the fault of a command; otherwise it is 200.
Unless it is 422, the status and the body are those that the rules give. -/
theorem run_request_answers (hF : F.Lawful) (hr : F.Brings r code input) :
    ((∃ answer, F.AnsweredWith r answer) ↔
        (∃ c ∈ input.toList, 255 < c.toNat) ∨ (∃ error, parse (scan code) = .error error) ∨
          ∃ p ending, parse (scan code) = .ok p ∧
            p.EndsWith (.fresh (codePoints input)) ending) ∧
      (∀ fuel accepted, inputOfText input = .ok accepted →
        runCode fuel code accepted ≠ some .crashed) ∧
      ∀ answer, F.AnsweredWith r answer →
        answer.status ∈ [422, 400, 409, 200] ∧
        (answer.status = 422 ↔ ∃ c ∈ input.toList, 255 < c.toNat) ∧
        (answer.status = 400 ↔ Narrow input ∧ ∃ error, parse (scan code) = .error error) ∧
        (answer.status = 409 ↔ Narrow input ∧ ∃ p ending fault, parse (scan code) = .ok p ∧
          p.EndsWith (.fresh (codePoints input)) ending ∧ ending.fault? = some fault ∧
          fault.OfCommand 1024) ∧
        (answer.status = 200 ↔ Narrow input ∧ ∃ fuel output,
          run fuel code (input.toList.map fun c ↦ (c.toNat : Int)) = some (.ok output)) ∧
        ∀ status body, RunAnswer code input status body ↔
          Narrow input ∧ answer = ⟨status, some body⟩ := by
  refine ⟨exists_answeredWith_iff hF hr, fun fuel accepted hcheck ↦ ?_, fun answer hanswer ↦ ?_⟩
  · obtain ⟨hnarrow, rfl⟩ := inputOfText_eq_ok_iff.mp hcheck
    exact runCode_ne_crashed hnarrow fuel
  have hwide := status_eq_unprocessable_iff hF hr hanswer
  have hstatus {status : Nat} (hne : status ≠ 422) :
      answer.status = status ↔ ∃ body, RunAnswer code input status body := by
    constructor
    · rintro rfl
      obtain ⟨status, body, rfl, hrule⟩ :=
        hanswer.exists_runAnswer hF hr (Classical.not_not.mp (mt hwide.mpr hne))
      exact ⟨body, hrule⟩
    · rintro ⟨body, hrule⟩
      rw [((runAnswer_iff hF hr hanswer).mp hrule).2]
  refine ⟨?_, hwide.trans Text.Byte.not_narrow_iff, ?_, ?_, ?_,
    fun status body ↦ runAnswer_iff hF hr hanswer⟩
  · by_cases hne : answer.status = 422
    · rw [hne]
      decide
    · obtain ⟨body, hrule⟩ := (hstatus hne).mp rfl
      exact List.mem_cons_of_mem _ hrule.status_mem
  · rw [hstatus (by decide), exists_unparsable_iff]
  · rw [hstatus (by decide), exists_failed_iff]
  · rw [hstatus (by decide), exists_ran_iff]

/-- A request to run with a text for its body. -/
def Request.toRun (body : String) : Request where
  method := "POST"
  target := "/api/run"
  host := "localhost"
  contentType := some "application/json"
  body := body.toUTF8.data.toList

/-- A program that reads a character of two bytes and then moves over the left end. -/
theorem run_request_answers_left_end :
    server.Lawful ∧
      server.Brings (.toRun "\x7b\"code\": \",<\", \"input\": \"é\"\x7d") ",<" "é" ∧
      server.AnsweredWith (.toRun "\x7b\"code\": \",<\", \"input\": \"é\"\x7d")
        ⟨409, some (failureBody "PointerOutOfBounds"
          "Pointer moved to -1 outside the tape (valid range 0..1023)" (.integer (-1)))⟩ := by
  have hr : server.Brings (.toRun "\x7b\"code\": \",<\", \"input\": \"é\"\x7d") ",<" "é" :=
    .inl (by decide +kernel)
  have hnarrow : Narrow "é" := Text.Byte.find?_eq_none_iff.mp (by decide +kernel)
  have hexecute : (execute 3 [.command .read, .command .moveLeft] (.fresh (codePoints "é"))).map
      Outcome.fault? = some (some (.pointerOutOfBounds (-1) 1024)) := by decide +kernel
  obtain ⟨o, ho, hfault⟩ := Option.map_eq_some_iff.mp hexecute
  have hends : Program.EndsWith _ (.fresh (codePoints "é")) o.ending := ⟨3, o, ho, rfl⟩
  have hrule : RunAnswer ",<" "é" 409 _ := .outOfBounds hnarrow rfl hends (.inl rfl) hfault
  obtain ⟨hanswered, -, hanswers⟩ := run_request_answers server_lawful hr
  obtain ⟨answer, hanswer⟩ := hanswered.mpr (.inr (.inr ⟨_, _, rfl, hends⟩))
  obtain ⟨-, -, -, -, -, hrules⟩ := hanswers answer hanswer
  obtain rfl := ((hrules _ _).mp hrule).2
  exact ⟨server_lawful, hr, hanswer⟩

end Api

end Brainfuck
