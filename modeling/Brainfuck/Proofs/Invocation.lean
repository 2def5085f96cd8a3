import Brainfuck.CommandLine
import Brainfuck.Proofs.Decoding
import Brainfuck.Proofs.Nesting
import Brainfuck.Proofs.SourceRun

/-!
Calls of the program with a source file that holds the encoding of a text. The program in the
file is that of the text: its bytes are read as the text, and what happens to the line breaks
touches no symbol (`loadProgram_toUTF8`). So a call ends as the run of the text does
(`invoke_of_parse_error`, `invoke_of_parse_ok`), although it goes another way about it: it
builds the machine itself, and where a run fails it keeps what has been written by then. Its
complaints are one line each (`unbroken_message`), since no text of the source gets into them,
only numbers. Where the file is, and what else there is, makes no difference: all is said for
any reader of files, and a program that goes out to read a file has the plan for what it brings
back (`plan_eq_map`).
-/

set_option autoImplicit false
set_option relaxedAutoImplicit false

namespace Brainfuck

/-! ### Lines -/

namespace Text

/-- There is no line feed in the text. -/
def Unbroken (text : String) : Prop :=
  '\n' ∉ text.toList

/-- The text is a line: its one line feed is at its end. -/
def IsLine (text : String) : Prop :=
  ∃ content, Unbroken content ∧ text = content ++ "\n"

instance (text : String) : Decidable (Unbroken text) :=
  inferInstanceAs (Decidable ('\n' ∉ text.toList))

theorem Unbroken.append {a b : String} (ha : Unbroken a) (hb : Unbroken b) :
    Unbroken (a ++ b) := by
  unfold Unbroken
  rw [String.toList_append, List.mem_append, not_or]
  exact ⟨ha, hb⟩

theorem unbroken_repr (n : Nat) : Unbroken n.repr := by
  unfold Unbroken
  rw [Nat.repr_eq_ofList_toDigits, String.toList_ofList]
  intro hmem
  have hdigit : '\n'.isDigit = true := Nat.isDigit_of_mem_toDigits (by decide) (by decide) hmem
  simp at hdigit

theorem unbroken_toString (n : Int) : Unbroken (toString n) := by
  change Unbroken n.repr
  rw [Int.repr_eq_if]
  by_cases hn : 0 ≤ n
  · rw [if_pos hn]
    exact unbroken_repr n.toNat
  · rw [if_neg hn]
    exact .append (by decide) (unbroken_repr (-n).toNat)

end Text

open Text (Unbroken IsLine)

/-- A number between two pieces of text. -/
theorem Text.Unbroken.around {before after : String} (hbefore : Unbroken before)
    (hafter : Unbroken after) (n : Int) : Unbroken (before ++ toString n ++ after) :=
  (hbefore.append (Text.unbroken_toString n)).append hafter

theorem ParseError.unbroken_message (error : ParseError) :
    Unbroken error.diagnostic.message := by
  cases error with
  | unmatchedEnd position =>
    unfold ParseError.diagnostic Diagnostic.message
    exact .around (by decide) (by decide) position
  | unmatchedStart position =>
    unfold ParseError.diagnostic Diagnostic.message
    exact .around (by decide) (by decide) position

theorem Fault.unbroken_message {fault : Fault} {d : Diagnostic}
    (hd : fault.diagnostic? = some d) : Unbroken d.message := by
  cases fault with
  | inputExhausted =>
    obtain rfl : Diagnostic.inputExhausted = d := Option.some.inj hd
    decide
  | pointerOutOfBounds target size =>
    obtain rfl : Diagnostic.pointerOutOfBounds target size = d := Option.some.inj hd
    unfold Diagnostic.message
    exact .around (.around (by decide) (by decide) target) (by decide) (size - 1)
  | noCell pointer => cases hd

/-! ### The program in a file -/

namespace CommandLine

theorem symbols_unify (text : List Char) :
    symbols (String.ofList (Text.LineBreak.unify text)) = symbols (String.ofList text) := by
  unfold symbols
  rw [String.toList_ofList, String.toList_ofList]
  exact Text.LineBreak.filter_unify (by decide) (by decide) text

/-- The encoding of a text holds the program of that text. -/
theorem loadProgram_toUTF8 (source : String) :
    loadProgram source.toUTF8.data.toList = (parseSource source).mapError .unparsable := by
  have hdecode : decodeSource source.toUTF8.data.toList =
      .ok (String.ofList (Text.LineBreak.unify source.toList)) := by
    simp only [decodeSource, Text.Utf8.decode_toUTF8]
  have hsymbols := symbols_unify source.toList
  rw [String.ofList_toList] at hsymbols
  simp only [loadProgram, hdecode, bind, Except.bind, parseSource_congr hsymbols]

/-! ### Calls -/

/-- An argument that does not begin with a dash is taken for the path of the source file. -/
theorem sourcePath_singleton {path : String} (hpath : path.startsWith "-" = false) :
    sourcePath [path] = .ok path := by
  have hplain : Options.Word.ofArgument grammar path = .ok (.plain path) := by
    unfold Options.Word.ofArgument
    rw [hpath]
    rfl
  have hmark : path ≠ "--" := by
    rintro rfl
    revert hpath
    decide +kernel
  have hword : Options.Word.ofArguments grammar [path] = .ok [.plain path] := by
    rw [Options.Word.ofArguments, hplain]
    · rfl
    · exact hmark
  unfold sourcePath Options.read
  rw [hword]
  rfl

/-- However a file is read, the plan of a call is the one that is made among files which hold
what has been read. -/
theorem plan_eq_map {m : Type → Type} [Monad m] [LawfulMonad m] {arguments : List String}
    {path : String} (harguments : sourcePath arguments = .ok path)
    (read : String → m (Except ReadError (List UInt8))) :
    plan read arguments = (fun found ↦ Id.run (plan (fun _ ↦ found) arguments)) <$> read path := by
  simp only [plan, harguments, map_eq_pure_bind, Id.run_bind]
  congr
  funext found
  cases found <;> rfl

theorem exitOf_failed {fault : Fault} {d : Diagnostic} (hd : fault.diagnostic? = some d)
    (m : Machine) :
    exitOf (.failed fault m) =
      ⟨1, m.output.toList, "Runtime error: " ++ d.message ++ "\n", m.input, none⟩ := by
  simp only [exitOf, hd]

/-- The only file there is. -/
def Reader.single (path : String) (content : List UInt8) : Reader := fun p ↦
  if p = path then .ok content else .error .notFound

theorem Reader.single_self (path : String) (content : List UInt8) :
    single path content path = .ok content :=
  if_pos rfl

section Call

variable {read : Reader} {arguments : List String} {path source : String}

theorem invoke_of_read (harguments : sourcePath arguments = .ok path) {content : List UInt8}
    (hfile : read path = .ok content) (fuel : Nat) (input : List UInt8) :
    invoke fuel read arguments input = (planContent path content).exit fuel input := by
  have hplan : (Id.run (plan read arguments)) = planContent path content := by
    simp only [plan, harguments, hfile, Id.run_bind]
    rfl
  rw [invoke, hplan]

theorem invoke_of_parse_error (harguments : sourcePath arguments = .ok path)
    (hfile : read path = .ok source.toUTF8.data.toList) {error : ParseError}
    (hparse : parseSource source = .error error) (fuel : Nat) (input : List UInt8) :
    invoke fuel read arguments input =
      some ⟨1, [], "Parse error: " ++ error.diagnostic.message ++ "\n", input, none⟩ := by
  rw [invoke_of_read harguments hfile, planContent, loadProgram_toUTF8, hparse]
  rfl

theorem invoke_of_parse_ok (harguments : sourcePath arguments = .ok path)
    (hfile : read path = .ok source.toUTF8.data.toList) {p : Program}
    (hparse : parseSource source = .ok p) (fuel : Nat) (input : List UInt8) :
    invoke fuel read arguments input = (execute fuel p (.fresh input)).map exitOf := by
  rw [invoke_of_read harguments hfile, planContent, loadProgram_toUTF8, hparse]
  rfl

variable {fuel : Nat} {input : List UInt8}

/-- Where the run of the text fails, the call keeps what has been written up to the command
that failed. -/
theorem invoke_of_run_fault (harguments : sourcePath arguments = .ok path)
    (hfile : read path = .ok source.toUTF8.data.toList) {fault : Fault}
    (hrun : run fuel source (input.map fun b ↦ (b.toNat : Int)) = some (.error (.fault fault))) :
    fault.OfCommand 1024 ∧ ∃ d p last c, fault.diagnostic? = some d ∧
      parseSource source = .ok p ∧ (Execution.start p (.fresh input)).Reaches last ∧
      last.command? = some c ∧ last.machine.apply c = .failed fault last.machine ∧
      invoke fuel read arguments input = some ⟨1, last.machine.output.toList,
        "Runtime error: " ++ d.message ++ "\n", last.machine.input, none⟩ := by
  rcases run_cases hrun with ⟨error, -, hanswer⟩ | ⟨p, o, hparse, hexecute, hanswer⟩
  · cases hanswer
  cases o with
  | finished m => cases hanswer
  | failed fault' m =>
    obtain rfl : fault' = fault := Failure.fault.inj (Except.error.inj hanswer)
    obtain ⟨last, c, hreaches, hcommand, happly, hblocked, rfl⟩ :=
      exists_last_of_execute_failed (Machine.onTape_fresh input) hexecute
    obtain ⟨d, hd⟩ := hblocked.ofCommand.exists_diagnostic
    refine ⟨hblocked.ofCommand, d, p, last, c, hd, hparse, hreaches, hcommand, happly, ?_⟩
    rw [invoke_of_parse_ok harguments hfile hparse, hexecute, Option.map_some, exitOf_failed hd,
      Machine.output_flush, Machine.input_flush]

theorem invoke_of_run_ok (harguments : sourcePath arguments = .ok path)
    (hfile : read path = .ok source.toUTF8.data.toList) {output : List UInt8}
    (hrun : run fuel source (input.map fun b ↦ (b.toNat : Int)) = some (.ok output)) :
    ∃ unread, invoke fuel read arguments input = some ⟨0, output, "", unread, none⟩ := by
  rcases run_cases hrun with ⟨error, -, hanswer⟩ | ⟨p, o, hparse, hexecute, hanswer⟩
  · cases hanswer
  cases o with
  | finished m =>
    obtain rfl : m.output.toList = output := Except.ok.inj hanswer
    refine ⟨m.input, ?_⟩
    rw [invoke_of_parse_ok harguments hfile hparse, hexecute]
    rfl
  | failed fault m => cases hanswer

theorem invoke_eq_none_iff (harguments : sourcePath arguments = .ok path)
    (hfile : read path = .ok source.toUTF8.data.toList) :
    invoke fuel read arguments input = none ↔
      run fuel source (input.map fun b ↦ (b.toNat : Int)) = none := by
  cases hparse : parseSource source with
  | error error =>
    simp only [invoke_of_parse_error harguments hfile hparse, run_of_parse_error hparse,
      reduceCtorEq]
  | ok p =>
    simp only [invoke_of_parse_ok harguments hfile hparse, run_of_parse_ok hparse,
      Option.map_eq_none_iff]

/-- Nothing is left to a fault that no line is written about. -/
theorem uncaught_of_invoke (harguments : sourcePath arguments = .ok path)
    (hfile : read path = .ok source.toUTF8.data.toList) {exit : Exit}
    (hinvoke : invoke fuel read arguments input = some exit) : exit.uncaught = none := by
  cases hparse : parseSource source with
  | error error =>
    rw [invoke_of_parse_error harguments hfile hparse, Option.some.injEq] at hinvoke
    rw [← hinvoke]
  | ok p =>
    rw [invoke_of_parse_ok harguments hfile hparse] at hinvoke
    obtain ⟨o, hexecute, rfl⟩ := Option.map_eq_some_iff.mp hinvoke
    cases o with
    | finished m => rfl
    | failed fault m =>
      obtain ⟨last, c, -, -, -, hblocked, -⟩ :=
        exists_last_of_execute_failed (Machine.onTape_fresh input) hexecute
      obtain ⟨d, hd⟩ := hblocked.ofCommand.exists_diagnostic
      rw [exitOf_failed hd]

end Call

/-- A call with one source file, which holds the encoding of a text, agrees with a run of that
text. If the text does not parse, the call reads and writes nothing and complains in one line. If
the run fails, it does so at a command, and the call has written what was written before that
command and complains in one line. If the run gives an output, the call writes that and has no
complaint. A run that stops ends in one of these ways, the call stops exactly if the run does,
and no fault is left without a line about it. -/
theorem command_line_agrees_with_run {read : Reader} {arguments : List String}
    {path source : String} (harguments : sourcePath arguments = .ok path)
    (hfile : read path = .ok source.toUTF8.data.toList) (fuel : Nat)
    (input : List UInt8) :
    (∀ error, parseSource source = .error error →
        invoke fuel read arguments input =
          some ⟨1, [], "Parse error: " ++ error.diagnostic.message ++ "\n", input, none⟩ ∧
        IsLine ("Parse error: " ++ error.diagnostic.message ++ "\n")) ∧
      (∀ fault, run fuel source (input.map fun b ↦ (b.toNat : Int)) =
          some (.error (.fault fault)) →
        fault.OfCommand 1024 ∧ ∃ d p last c, fault.diagnostic? = some d ∧
          parseSource source = .ok p ∧ (Execution.start p (.fresh input)).Reaches last ∧
          last.command? = some c ∧ last.machine.apply c = .failed fault last.machine ∧
          invoke fuel read arguments input = some ⟨1, last.machine.output.toList,
            "Runtime error: " ++ d.message ++ "\n", last.machine.input, none⟩ ∧
          IsLine ("Runtime error: " ++ d.message ++ "\n")) ∧
      (∀ output, run fuel source (input.map fun b ↦ (b.toNat : Int)) = some (.ok output) →
        ∃ unread, invoke fuel read arguments input = some ⟨0, output, "", unread, none⟩) ∧
      (∀ failure, run fuel source (input.map fun b ↦ (b.toNat : Int)) = some (.error failure) →
        (∃ error, parseSource source = .error error ∧ failure = .parse error) ∨
          ∃ fault, failure = .fault fault) ∧
      (invoke fuel read arguments input = none ↔
        run fuel source (input.map fun b ↦ (b.toNat : Int)) = none) ∧
      ∀ exit, invoke fuel read arguments input = some exit → exit.uncaught = none := by
  refine ⟨fun error hparse ↦ ⟨?_, ?_⟩, fun fault hrun ↦ ?_, fun output hrun ↦ ?_,
    fun failure hrun ↦ ?_, invoke_eq_none_iff harguments hfile, fun exit hinvoke ↦ ?_⟩
  · exact invoke_of_parse_error harguments hfile hparse fuel input
  · exact ⟨_, .append (by decide) error.unbroken_message, rfl⟩
  · obtain ⟨hcommand, d, p, last, c, hd, hparse, hreaches, hlast, happly, hinvoke⟩ :=
      invoke_of_run_fault harguments hfile hrun
    refine ⟨hcommand, d, p, last, c, hd, hparse, hreaches, hlast, happly, hinvoke, ?_⟩
    exact ⟨_, .append (by decide) (Fault.unbroken_message hd), rfl⟩
  · exact invoke_of_run_ok harguments hfile hrun
  · rcases run_cases hrun with ⟨error, hparse, hanswer⟩ | ⟨p, o, -, -, hanswer⟩
    · exact .inl ⟨error, hparse, Except.error.inj hanswer⟩
    · cases o with
      | finished m => cases hanswer
      | failed fault m => exact .inr ⟨fault, (Except.error.inj hanswer).symm⟩
  · exact uncaught_of_invoke harguments hfile hinvoke

/-- A program behind a line break, in a file that is named from the root, with an input for it
and without. -/
theorem command_line_agrees_with_run_line_break :
    sourcePath ["/tmp/p.bf"] = .ok "/tmp/p.bf" ∧
      Reader.single "/tmp/p.bf" "é\r\n,+.".toUTF8.data.toList "/tmp/p.bf" =
        .ok "é\r\n,+.".toUTF8.data.toList ∧
      (∃ unread, invoke 9 (.single "/tmp/p.bf" "é\r\n,+.".toUTF8.data.toList) ["/tmp/p.bf"] [6] =
        some ⟨0, [7], "", unread, none⟩) ∧
      ∃ exit, invoke 9 (.single "/tmp/p.bf" "é\r\n,+.".toUTF8.data.toList) ["/tmp/p.bf"] [] =
          some exit ∧ exit.status = 1 ∧
        exit.complaint = "Runtime error: Input stream exhausted while reading a cell\n" := by
  have hpath : sourcePath ["/tmp/p.bf"] = .ok "/tmp/p.bf" :=
    sourcePath_singleton (by decide +kernel)
  have hfile := Reader.single_self "/tmp/p.bf" "é\r\n,+.".toUTF8.data.toList
  obtain ⟨-, -, hok, -⟩ := command_line_agrees_with_run hpath hfile 9 [6]
  obtain ⟨-, hfault, -⟩ := command_line_agrees_with_run hpath hfile 9 []
  refine ⟨hpath, hfile, hok [7] (by decide +kernel), ?_⟩
  obtain ⟨-, d, p, last, c, hd, -, -, -, -, hinvoke, -⟩ :=
    hfault .inputExhausted (by decide +kernel)
  obtain rfl : Diagnostic.inputExhausted = d := Option.some.inj hd
  exact ⟨_, hinvoke, rfl, rfl⟩

end CommandLine

end Brainfuck
