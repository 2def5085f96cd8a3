import Brainfuck.Proofs.Nesting
import Brainfuck.Proofs.PendingBodies
import Brainfuck.Proofs.ServerLaws
import Mathlib.Order.MinMax

/-!
What the server says about a source text that parses. The numbers in its report are taken from
the tree, by one walk for each; yet they describe the text, and can be read off it without a
tree. Commands and loops are counted by their symbols (`Program.commands_eq_countP`,
`Program.loops_eq_count`), and the depth of a tree is the greatest nesting that is
reached along its opcodes (`Program.isGreatest_depth`): around a body the nesting is one higher
than inside it, and between the instructions of a body it is back where it was. Comments change
none of these numbers (`range_nesting_scan`).
-/

set_option autoImplicit false
set_option relaxedAutoImplicit false

namespace Brainfuck

/-! ### The greatest nesting -/

section Nesting

variable {α : Type} [DecidableEq α] {opening closing : α}

theorem mem_range_nesting_iff {xs : List α} {d : Int} :
    d ∈ Set.range (nesting opening closing xs) ↔
      ∃ before, before <+: xs ∧ (before.count opening : Int) - before.count closing = d := by
  constructor
  · rintro ⟨k, rfl⟩
    exact ⟨xs.take k, List.take_prefix k xs, rfl⟩
  · rintro ⟨before, hbefore, rfl⟩
    refine ⟨before.length, ?_⟩
    rw [nesting, ← List.prefix_iff_eq_take.mp hbefore]

/-- Along two sequences the greatest nesting is reached in the first, or in the second on top of
what the first leaves open. -/
theorem isGreatest_nesting_append {xs ys : List α} {a b : Int}
    (hxs : IsGreatest (Set.range (nesting opening closing xs)) a)
    (hys : IsGreatest (Set.range (nesting opening closing ys)) b) :
    IsGreatest (Set.range (nesting opening closing (xs ++ ys)))
      (max a (nesting opening closing xs xs.length + b)) := by
  obtain ⟨⟨j, rfl⟩, hxs⟩ := hxs
  obtain ⟨⟨k, rfl⟩, hys⟩ := hys
  constructor
  · rcases max_choice (nesting opening closing xs j)
      (nesting opening closing xs xs.length + nesting opening closing ys k) with hmax | hmax
    · rw [hmax]
      by_cases hj : j ≤ xs.length
      · exact ⟨j, nesting_append_of_le hj ys⟩
      · refine ⟨xs.length, ?_⟩
        rw [nesting_append_of_le le_rfl, nesting_of_length_le (Nat.le_of_not_le hj)]
    · rw [hmax]
      exact ⟨xs.length + k, nesting_append_length_add xs ys k⟩
  · rintro _ ⟨i, rfl⟩
    by_cases hi : i ≤ xs.length
    · rw [nesting_append_of_le hi]
      exact le_max_of_le_left (hxs ⟨i, rfl⟩)
    · obtain ⟨i, rfl⟩ : ∃ rest, i = xs.length + rest := ⟨i - xs.length, by omega⟩
      rw [nesting_append_length_add]
      exact le_max_of_le_right (Int.add_le_add_left (hys ⟨i, rfl⟩) _)

theorem isGreatest_nesting_nil :
    IsGreatest (Set.range (nesting opening closing ([] : List α))) 0 := by
  refine ⟨⟨0, nesting_zero []⟩, ?_⟩
  rintro _ ⟨k, rfl⟩
  rw [nesting_of_length_le (Nat.zero_le k), List.length_nil, nesting_zero]

/-- One element in front raises or lowers the nesting along the rest. -/
theorem isGreatest_nesting_cons {x : α} {xs : List α} {a : Int}
    (hxs : IsGreatest (Set.range (nesting opening closing xs)) a) :
    IsGreatest (Set.range (nesting opening closing (x :: xs)))
      (max 0 (a + ((if x = opening then 1 else 0) - if x = closing then 1 else 0))) := by
  obtain ⟨⟨j, rfl⟩, hxs⟩ := hxs
  rw [← nesting_cons_succ x xs j]
  constructor
  · rcases max_choice 0 (nesting opening closing (x :: xs) (j + 1)) with hmax | hmax
    · rw [hmax]
      exact ⟨0, nesting_zero (x :: xs)⟩
    · rw [hmax]
      exact ⟨j + 1, rfl⟩
  · rintro _ ⟨k, rfl⟩
    cases k with
    | zero => exact le_max_of_le_left (nesting_zero (x :: xs)).le
    | succ k =>
      rw [nesting_cons_succ, nesting_cons_succ]
      exact le_max_of_le_right (Int.add_le_add_right (hxs ⟨k, rfl⟩) _)

end Nesting

namespace Program

/-! ### The measures of a tree along its opcodes -/

theorem commands_eq_countP (p : Program) :
    p.commands = p.opcodes.countP fun o ↦ o.command?.isSome := by
  induction p using Program.induction with
  | nil => rfl
  | command c p ih => simp [Opcode.command?, ih, Nat.add_comm]
  | loop body p ihbody ih => simp [Opcode.command?, ihbody, ih]

/-- Each of the two brackets stands once for every loop. -/
theorem loops_eq_count {bracket : Opcode} (hbracket : bracket.command? = none) (p : Program) :
    p.loops = p.opcodes.count bracket := by
  induction p using Program.induction with
  | nil => rfl
  | command c p ih =>
    have hne : Opcode.command c ≠ bracket := by
      rintro rfl
      simp [Opcode.command?] at hbracket
    rw [loops_command_cons, opcodes_command_cons, List.count_cons_of_ne hne, ih]
  | loop body p ihbody ih =>
    rw [loops_loop_cons, opcodes_loop_cons, List.count_cons, List.count_append, List.count_cons,
      ihbody, ih]
    cases bracket with
    | command c => simp [Opcode.command?] at hbracket
    | loopBegin =>
      simp only [beq_self_eq_true, reduceCtorEq, beq_iff_eq, ↓reduceIte]
      omega
    | loopEnd =>
      simp only [beq_self_eq_true, reduceCtorEq, beq_iff_eq, ↓reduceIte]
      omega

theorem length_opcodes (p : Program) : p.opcodes.length = p.commands + 2 * p.loops := by
  induction p using Program.induction with
  | nil => rfl
  | command c p ih =>
    rw [opcodes_command_cons, List.length_cons, ih, commands_command_cons, loops_command_cons]
    omega
  | loop body p ihbody ih =>
    rw [opcodes_loop_cons, List.length_cons, List.length_append, List.length_cons, ihbody, ih,
      commands_loop_cons, loops_loop_cons]
    omega

/-- A program closes all that it opens. -/
theorem nesting_opcodes_length (p : Program) :
    nesting .loopBegin .loopEnd p.opcodes p.opcodes.length = 0 :=
  ((judged_parse p.opcodes).ok_iff.mp ⟨p, parse_eq_ok_iff.mpr rfl⟩).2

/-- The depth of a tree is the greatest nesting along its opcodes. -/
theorem isGreatest_depth (p : Program) :
    IsGreatest (Set.range (nesting .loopBegin .loopEnd p.opcodes)) p.depth := by
  induction p using Program.induction with
  | nil => exact isGreatest_nesting_nil
  | command c p ih =>
    rw [opcodes_command_cons, depth_command_cons]
    convert isGreatest_nesting_cons ih using 1
    simp only [reduceCtorEq, ↓reduceIte]
    omega
  | loop body p ihbody ih =>
    rw [opcodes_loop_cons, depth_loop_cons]
    convert isGreatest_nesting_cons
      (isGreatest_nesting_append ihbody (isGreatest_nesting_cons ih)) using 1
    rw [nesting_opcodes_length]
    simp only [reduceCtorEq, ↓reduceIte]
    omega

end Program

/-! ### The text and its opcodes -/

/-- Whether a character is the symbol of a command. -/
def isCommandSymbol (c : Char) : Bool :=
  c ∈ ['>', '<', '+', '-', '.', ',']

theorem isSome_command?_ofSymbol? (c : Char) :
    ((Opcode.ofSymbol? c).map fun o ↦ o.command?.isSome).getD false = isCommandSymbol c := by
  unfold Opcode.ofSymbol?
  split <;> simp_all [Opcode.command?, isCommandSymbol]

theorem count_filterMap_ofSymbol? (cs : List Char) (o : Opcode) :
    (cs.filterMap Opcode.ofSymbol?).count o = cs.count o.symbol := by
  rw [List.count_filterMap, List.count]
  congr 1
  funext c
  rw [Bool.eq_iff_iff, beq_iff_eq, beq_iff_eq, Opcode.ofSymbol?_eq_some_iff, eq_comm]

theorem countP_scan (code : String) :
    ((scan code).countP fun o ↦ o.command?.isSome) = code.toList.countP isCommandSymbol := by
  rw [scan, List.countP_filterMap]
  exact congrArg (code.toList.countP ·) (funext isSome_command?_ofSymbol?)

theorem length_scan (code : String) : (scan code).length = code.toList.countP isSymbol := by
  rw [← List.length_map (f := Opcode.symbol), map_symbol_scan, symbols,
    List.countP_eq_length_filter]

/-- What is open after a part of a text is open after the opcodes of that part, and every part
of the opcodes is that of a part of the text. -/
theorem range_nesting_scan (code : String) :
    Set.range (nesting .loopBegin .loopEnd (scan code)) =
      Set.range (nesting '[' ']' code.toList) := by
  have hcount (before : List Char) :
      ((before.filterMap Opcode.ofSymbol?).count .loopBegin : Int) -
          (before.filterMap Opcode.ofSymbol?).count .loopEnd =
        before.count '[' - before.count ']' := by
    rw [count_filterMap_ofSymbol?, count_filterMap_ofSymbol?]
    rfl
  ext d
  rw [mem_range_nesting_iff, mem_range_nesting_iff, scan]
  simp only [List.prefix_filterMap_iff]
  constructor
  · rintro ⟨_, ⟨before, hbefore, rfl⟩, rfl⟩
    exact ⟨before, hbefore, (hcount before).symm⟩
  · rintro ⟨before, hbefore, rfl⟩
    exact ⟨_, ⟨before, hbefore, rfl⟩, hcount before⟩

/-! ### The report -/

namespace Api

/-- A report that says of a text what can be counted in it. The depth is the greatest surplus of
opening over closing brackets in a part of the text that starts where the text does. -/
structure ParseReport.Describes (report : ParseReport) (code : String) : Prop where
  opcodes_eq : report.opcodes = code.toList.countP isSymbol
  commands_eq : report.commands = code.toList.countP isCommandSymbol
  loops_eq_opening : report.loops = code.toList.count '['
  loops_eq_closing : report.loops = code.toList.count ']'
  opcodes_eq_add : report.opcodes = report.commands + 2 * report.loops
  length_text : report.text.length = report.opcodes
  depth_isGreatest : IsGreatest (Set.range (nesting '[' ']' code.toList)) report.depth

variable {code : String} {p : Program}

/-- The numbers that are taken from the tree are those of the text. -/
theorem describes_of_parse (hparse : parse (scan code) = .ok p) :
    ParseReport.Describes
      ⟨(scan code).length, p.commandCount, p.loopCount, p.nestingDepth, p.text⟩ code := by
  have hopcodes : p.opcodes = scan code := parse_eq_ok_iff.mp hparse
  have hcount (bracket : Opcode) (hbracket : bracket.command? = none) :
      p.loopCount = code.toList.count bracket.symbol := by
    rw [p.loopCount_eq, p.loops_eq_count hbracket, hopcodes, scan, count_filterMap_ofSymbol?]
  constructor
  · exact length_scan code
  · rw [p.commandCount_eq, p.commands_eq_countP, hopcodes, countP_scan]
  · exact hcount .loopBegin rfl
  · exact hcount .loopEnd rfl
  · rw [p.commandCount_eq, p.loopCount_eq, ← hopcodes, p.length_opcodes]
  · rw [← String.length_toList, p.toList_text, Program.render, List.length_map, hopcodes]
  · rw [p.nestingDepth_eq, ← range_nesting_scan, ← hopcodes]
    exact p.isGreatest_depth

/-- A text that parses has a report that describes it: the number of its symbols, of its command
symbols and of its loops, each of which has an opening and a closing bracket; the length of the
rendered program is the number of symbols, and the depth is the greatest surplus of opening
brackets in a part of the text from its start. Under every framework that keeps the laws, every
request to parse the text is answered with 200 and this report. The walks over the tree give the
same numbers whoever asks for them. -/
theorem parse_answer_describes_text (hparse : parse (scan code) = .ok p) :
    (∃ report : ParseReport, report.Describes code ∧ report.text = p.text ∧
      parseCode code = .parsed report ∧
      ∀ {ρ : Type} (F : Framework ρ), F.Lawful → ∀ (r : ρ) (fuel : Nat),
        F.parseText? r = some code →
        F.answer? (application fuel) r =
          some ⟨200, some (.object [("opcode_count", .integer report.opcodes),
            ("command_count", .integer report.commands), ("loop_count", .integer report.loops),
            ("nesting_depth", .integer report.depth), ("program", .string report.text)])⟩) ∧
      p.commandCount = code.toList.countP isCommandSymbol ∧
      p.loopCount = code.toList.count '[' ∧ p.loopCount = code.toList.count ']' ∧
      IsGreatest (Set.range (nesting '[' ']' code.toList)) p.nestingDepth := by
  have hdescribes := describes_of_parse hparse
  have hanswer : parseCode code = .parsed
      ⟨(scan code).length, p.commandCount, p.loopCount, p.nestingDepth, p.text⟩ := by
    simp only [parseCode, hparse]
  refine ⟨⟨_, hdescribes, rfl, hanswer, fun F hF r fuel hr ↦ ?_⟩, hdescribes.commands_eq,
    hdescribes.loops_eq_opening, hdescribes.loops_eq_closing, hdescribes.depth_isGreatest⟩
  have hparsed : (application fuel).parse code = some (.parsed _) := congrArg some hanswer
  rw [hF.answer?_parse hr, hparsed, Option.map_some, hF.send_returned rfl]

/-- A text with a comment, two loops one in the other, and a third behind them. -/
theorem parse_answer_describes_text_two_deep :
    parse (scan "go [>[-]<] []") =
        .ok [.loop [.command .moveRight, .loop [.command .decrement], .command .moveLeft],
          .loop []] ∧
      ∃ report : ParseReport, report.Describes "go [>[-]<] []" ∧ report.text = "[>[-]<][]" ∧
        ∃ r : Request, server.Lawful ∧ server.parseText? r = some "go [>[-]<] []" ∧
          ∃ answer, server.answer? (application 0) r = some answer ∧ answer.status = 200 := by
  have hparse : parse (scan "go [>[-]<] []") =
      .ok [.loop [.command .moveRight, .loop [.command .decrement], .command .moveLeft],
        .loop []] := rfl
  let r : Request := ⟨"POST", "/api/parse", "localhost", some "application/json",
    "\x7b\"code\": \"go [>[-]<] []\"\x7d".toUTF8.data.toList⟩
  have hr : server.parseText? r = some "go [>[-]<] []" := by decide +kernel
  obtain ⟨⟨report, hdescribes, htext, -, hanswers⟩, -⟩ := parse_answer_describes_text hparse
  exact ⟨hparse, report, hdescribes, htext.trans (by decide +kernel), r, server_lawful, hr, _,
    hanswers server server_lawful r 0 hr, rfl⟩

end Api

end Brainfuck
