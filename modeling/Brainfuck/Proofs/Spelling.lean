import Brainfuck.Program.Builder
import Brainfuck.Program.Traversal

/-!
A program and the symbols that spell it are two forms of one thing. What the
builder holds between two opcodes spells out the opcodes it has taken
(`Builder.spelled_push`), and the opcodes of a program build that program on top of
whatever was there before (`Builder.foldlM_push_opcodes`). So an opcode sequence
parses to a program exactly if it is the spelling of that program
(`parse_eq_ok_iff`), and the source texts of a program are its symbols with
comments between them (`parseSource_eq_ok_iff`).
-/

set_option autoImplicit false
set_option relaxedAutoImplicit false

namespace Brainfuck

namespace Program

@[simp] theorem opcodes_nil : opcodes [] = [] := rfl

@[simp] theorem opcodes_command_cons (c : Command) (p : Program) :
    opcodes (.command c :: p) = .command c :: opcodes p := rfl

@[simp] theorem opcodes_loop_cons (body p : Program) :
    opcodes (.loop body :: p) = .loopBegin :: (opcodes body ++ .loopEnd :: opcodes p) := by
  simp [opcodes, Instruction.opcodes]

@[simp] theorem opcodes_append (p q : Program) :
    opcodes (p ++ q) = opcodes p ++ opcodes q := by
  induction p with
  | nil => rfl
  | cons i p ih => simp [opcodes, ih]

@[simp] theorem render_nil : render [] = [] := rfl

@[simp] theorem render_command_cons (c : Command) (p : Program) :
    render (.command c :: p) = c.symbol :: render p := rfl

@[simp] theorem render_loop_cons (body p : Program) :
    render (.loop body :: p) = '[' :: (render body ++ ']' :: render p) := by
  simp [render, Opcode.symbol]

end Program

/-! ### The symbols in a source text -/

/-- Whether a character is one of the eight symbols. -/
def isSymbol (c : Char) : Bool :=
  c ∈ ['>', '<', '+', '-', '.', ',', '[', ']']

/-- The symbols of a source text, in order; every other character is left out. -/
def symbols (source : String) : List Char :=
  source.toList.filter isSymbol

theorem symbols_append (source more : String) :
    symbols (source ++ more) = symbols source ++ symbols more := by
  simp [symbols]

theorem map_symbol_ofSymbol? (c : Char) :
    (Opcode.ofSymbol? c).map Opcode.symbol = Option.guard (isSymbol ·) c := by
  by_cases hc : isSymbol c = true
  · have hmem := hc
    simp only [isSymbol, List.mem_cons, List.not_mem_nil, or_false, decide_eq_true_eq] at hmem
    rw [Option.guard, if_pos hc]
    rcases hmem with rfl | rfl | rfl | rfl | rfl | rfl | rfl | rfl <;> rfl
  · rw [Option.guard, if_neg hc, Option.map_eq_none_iff]
    cases ho : Opcode.ofSymbol? c with
    | none => rfl
    | some o =>
      rw [← Opcode.symbol_of_ofSymbol? ho] at hc
      cases o with
      | command c => cases c <;> exact absurd rfl hc
      | loopBegin => exact absurd rfl hc
      | loopEnd => exact absurd rfl hc

/-- The opcodes of a source text are its symbols, one for one. -/
theorem map_symbol_scan (source : String) : (scan source).map Opcode.symbol = symbols source := by
  rw [scan, List.map_filterMap, symbols, ← List.filterMap_eq_filter]
  exact congrArg (List.filterMap · source.toList) (funext map_symbol_ofSymbol?)

theorem Opcode.symbol_injective {o o' : Opcode} (h : o.symbol = o'.symbol) : o = o' := by
  have hsome : some o = some o' := by rw [← ofSymbol?_symbol o, h, ofSymbol?_symbol]
  exact Option.some.inj hsome

theorem scan_eq_iff {source : String} {ops : List Opcode} :
    scan source = ops ↔ symbols source = ops.map Opcode.symbol := by
  rw [← map_symbol_scan]
  exact (List.map_inj_right fun _ _ ↦ Opcode.symbol_injective).symm

/-! ### What the builder has read -/

/-- The opcodes that open frames stand for: those before each loop and the bracket that
opened it, the outermost loop first. -/
def Frame.spelled : List Frame → List Opcode
  | [] => []
  | frame :: frames => spelled frames ++ (Program.opcodes frame.enclosing.reverse ++ [.loopBegin])

namespace Builder

/-- The opcodes that a builder stands for. -/
def spelled (b : Builder) : List Opcode :=
  Frame.spelled b.frames ++ Program.opcodes b.body.reverse

/-- What taking an opcode does: a command lengthens the current body, an opening bracket puts
it aside, and a closing bracket makes it a loop of the body around it. -/
theorem push_eq_ok {b b' : Builder} {o : Opcode} (hpush : b.push o = .ok b') :
    (∃ c, o = .command c ∧ b' = ⟨b.count + 1, b.frames, .command c :: b.body⟩) ∨
      (o = .loopBegin ∧ b' = ⟨b.count + 1, ⟨b.count, b.body⟩ :: b.frames, []⟩) ∨
      ∃ frame frames, o = .loopEnd ∧ b.frames = frame :: frames ∧
        b' = ⟨b.count + 1, frames, .loop b.body.reverse :: frame.enclosing⟩ := by
  cases o with
  | command c => exact .inl ⟨c, rfl, (Except.ok.inj hpush).symm⟩
  | loopBegin => exact .inr (.inl ⟨rfl, (Except.ok.inj hpush).symm⟩)
  | loopEnd =>
    cases hframes : b.frames with
    | nil => simp [push, hframes] at hpush
    | cons frame frames =>
      simp only [push, hframes, Except.ok.injEq] at hpush
      exact .inr (.inr ⟨frame, frames, rfl, rfl, hpush.symm⟩)

/-- The only opcode that is refused is a closing bracket for which no loop is open. -/
theorem push_eq_error {b : Builder} {o : Opcode} {e : ParseError} (hpush : b.push o = .error e) :
    o = .loopEnd ∧ b.frames = [] ∧ e = .unmatchedEnd b.count := by
  cases o with
  | command c => cases hpush
  | loopBegin => cases hpush
  | loopEnd =>
    cases hframes : b.frames with
    | nil =>
      simp only [push, hframes, Except.error.injEq] at hpush
      exact ⟨rfl, rfl, hpush.symm⟩
    | cons frame frames => simp [push, hframes] at hpush

/-- An opcode that is taken is spelled behind those taken before. -/
theorem spelled_push {b b' : Builder} {o : Opcode} (hpush : b.push o = .ok b') :
    b'.spelled = b.spelled ++ [o] := by
  rcases push_eq_ok hpush with ⟨c, rfl, rfl⟩ | ⟨rfl, rfl⟩ | ⟨frame, frames, rfl, hframes, rfl⟩
  · simp [spelled]
  · simp [spelled, Frame.spelled]
  · simp [spelled, Frame.spelled, hframes]

theorem foldlM_push_nil {b : Builder} : [].foldlM push b = .ok b := rfl

theorem foldlM_push_cons {b : Builder} {o : Opcode} {ops : List Opcode} :
    (o :: ops).foldlM push b = (b.push o).bind fun b' ↦ ops.foldlM push b' := rfl

/-- What holds of the empty builder and is preserved by every opcode that is taken holds of
every builder that reading leads to. -/
theorem foldlM_push_invariant {P : List Opcode → Builder → Prop} (hempty : P [] empty)
    (hstep : ∀ {ops b o b'}, P ops b → push b o = .ok b' → P (ops ++ [o]) b')
    {ops : List Opcode} {b : Builder} (hread : ops.foldlM push empty = .ok b) : P ops b := by
  have hfrom (rest taken : List Opcode) (b₀ : Builder) (htaken : P taken b₀)
      (hrest : rest.foldlM push b₀ = .ok b) : P (taken ++ rest) b := by
    induction rest generalizing taken b₀ with
    | nil =>
      cases hrest
      rwa [List.append_nil]
    | cons o rest ih =>
      rw [foldlM_push_cons] at hrest
      cases hpush : b₀.push o with
      | error e => simp [hpush, Except.bind] at hrest
      | ok b₁ =>
        rw [hpush] at hrest
        rw [← List.singleton_append, ← List.append_assoc]
        exact ih (taken ++ [o]) b₁ (hstep htaken hpush) hrest
  exact hfrom ops [] empty hempty hread

/-- A sequence that is refused has a first opcode that is refused. -/
theorem exists_of_foldlM_push_error {ops : List Opcode} {b : Builder} {e : ParseError}
    (hread : ops.foldlM push b = .error e) :
    ∃ taken o rest b', ops = taken ++ o :: rest ∧ taken.foldlM push b = .ok b' ∧
      b'.push o = .error e := by
  induction ops generalizing b with
  | nil => cases hread
  | cons o ops ih =>
    rw [foldlM_push_cons] at hread
    cases hpush : b.push o with
    | error e' =>
      rw [hpush] at hread
      cases hread
      exact ⟨[], o, ops, b, rfl, rfl, hpush⟩
    | ok b₁ =>
      rw [hpush] at hread
      obtain ⟨taken, o', rest, b', rfl, htaken, hrefused⟩ := ih hread
      refine ⟨o :: taken, o', rest, b', rfl, ?_, hrefused⟩
      rw [foldlM_push_cons, hpush]
      exact htaken

/-- What the builder holds spells what it has read. -/
theorem spelled_of_foldlM_push {ops : List Opcode} {b : Builder}
    (hread : ops.foldlM push empty = .ok b) : b.spelled = ops := by
  refine foldlM_push_invariant (P := fun ops b ↦ b.spelled = ops) rfl ?_ hread
  intro ops b o b' hspelled hpush
  rw [spelled_push hpush, hspelled]

/-- The opcodes of a program put that program behind the instructions of the current body,
and leave the open loops alone. -/
theorem foldlM_push_opcodes (p : Program) (b : Builder) (rest : List Opcode) :
    (p.opcodes ++ rest).foldlM push b =
      rest.foldlM push ⟨b.count + p.opcodes.length, b.frames, p.reverse ++ b.body⟩ := by
  induction p using Program.induction generalizing b rest with
  | nil => rfl
  | command c p ih =>
    have hcount : b.count + 1 + p.opcodes.length =
        b.count + (Program.opcodes (.command c :: p)).length := by
      rw [Program.opcodes_command_cons, List.length_cons]
      omega
    rw [← hcount, Program.opcodes_command_cons, List.cons_append, foldlM_push_cons, push,
      Except.bind, ih, List.reverse_cons, List.append_assoc, List.singleton_append]
  | loop body p ihbody ih =>
    have hcount : b.count + 1 + body.opcodes.length + 1 + p.opcodes.length =
        b.count + (Program.opcodes (.loop body :: p)).length := by
      rw [Program.opcodes_loop_cons, List.length_cons, List.length_append, List.length_cons]
      omega
    rw [← hcount, Program.opcodes_loop_cons, List.cons_append, foldlM_push_cons, push, Except.bind,
      List.append_assoc, ihbody, List.cons_append, foldlM_push_cons]
    simp only [push, Except.bind]
    rw [ih]
    simp

theorem finish_eq_ok_iff {b : Builder} {p : Program} :
    b.finish = .ok p ↔ b.frames = [] ∧ b.body.reverse = p := by
  unfold finish
  cases hlast : b.frames.getLast? with
  | none => simp [List.getLast?_eq_none_iff.mp hlast]
  | some outermost =>
    have hne : b.frames ≠ [] := by
      rintro hnil
      simp [hnil] at hlast
    simp [hne]

end Builder

theorem parse_eq_bind (ops : List Opcode) :
    parse ops = (ops.foldlM Builder.push Builder.empty).bind Builder.finish := rfl

/-- An opcode sequence parses to the program that it spells, and to no other. -/
theorem parse_eq_ok_iff {ops : List Opcode} {p : Program} :
    parse ops = .ok p ↔ p.opcodes = ops := by
  rw [parse_eq_bind]
  constructor
  · intro hparse
    cases hread : ops.foldlM Builder.push Builder.empty with
    | error e => simp [hread, Except.bind] at hparse
    | ok b =>
      rw [hread] at hparse
      obtain ⟨hframes, rfl⟩ := Builder.finish_eq_ok_iff.mp hparse
      have hspelled := Builder.spelled_of_foldlM_push hread
      rwa [Builder.spelled, hframes, Frame.spelled, List.nil_append] at hspelled
  · rintro rfl
    have hread := Builder.foldlM_push_opcodes p Builder.empty []
    rw [List.append_nil, Builder.foldlM_push_nil] at hread
    rw [hread, Except.bind, Builder.finish_eq_ok_iff]
    exact ⟨rfl, by simp [Builder.empty]⟩

/-- A source text parses to the program whose symbols are left when its comments are taken
out. -/
theorem parseSource_eq_ok_iff {source : String} {p : Program} :
    parseSource source = .ok p ↔ symbols source = p.render := by
  rw [parseSource, parse_eq_ok_iff, eq_comm, scan_eq_iff, Program.render]

/-! ### The text of a program -/

namespace Program

/-- The writer appends the symbols of what is left of the current body, and then, for each
body around it, the bracket that returns there and the symbols of its rest. -/
theorem toList_writeFrom (text : String) (body : Program) (enclosing : List Program) :
    (writeFrom text body enclosing).toList =
      text.toList ++ (body.render ++ enclosing.flatMap fun outer ↦ ']' :: outer.render) := by
  fun_induction writeFrom text body enclosing with
  | case1 text => simp
  | case2 text outer enclosing ih =>
    rw [ih]
    simp [Opcode.symbol]
  | case3 text c body enclosing ih =>
    rw [ih]
    simp
  | case4 text inner body enclosing ih =>
    rw [ih]
    simp [Opcode.symbol]

@[simp] theorem toList_text (p : Program) : p.text.toList = p.render := by
  simp [text, toList_writeFrom]

theorem symbols_text (p : Program) : symbols p.text = p.render := by
  rw [symbols, toList_text, List.filter_eq_self]
  intro c hc
  obtain ⟨o, -, rfl⟩ := List.mem_map.mp hc
  cases o with
  | command c => cases c <;> rfl
  | loopBegin => rfl
  | loopEnd => rfl

end Program

theorem parseSource_text (p : Program) : parseSource p.text = .ok p :=
  parseSource_eq_ok_iff.mpr p.symbols_text

theorem text_of_parseSource {source : String} {p : Program}
    (hparse : parseSource source = .ok p) : p.text = String.ofList (symbols source) := by
  rw [parseSource_eq_ok_iff.mp hparse, ← p.toList_text, String.ofList_toList]

/-- Parsing and rendering are inverse to each other. The text of a program parses to that
program; the text of a parsed program is its source without the comments. Hence sources
are parsed to the same tree exactly if they have the same symbols, and rendering,
parsing and rendering again gives the same text. -/
theorem parseSource_text_inverse :
    (∀ p : Program, parseSource p.text = .ok p) ∧
      (∀ (source : String) (p : Program), parseSource source = .ok p →
        p.text = String.ofList (symbols source)) ∧
      (∀ (source source' : String) (p p' : Program), parseSource source = .ok p →
        parseSource source' = .ok p' → (p = p' ↔ symbols source = symbols source')) ∧
      ∀ (source : String) (p : Program), parseSource source = .ok p →
        ∃ p', parseSource p.text = .ok p' ∧ p'.text = p.text := by
  refine ⟨parseSource_text, fun _ _ ↦ text_of_parseSource, ?_, ?_⟩
  · intro source source' p p' hparse hparse'
    constructor
    · rintro rfl
      rw [parseSource_eq_ok_iff.mp hparse, parseSource_eq_ok_iff.mp hparse']
    · intro hsymbols
      rw [parseSource_eq_ok_iff, hsymbols, ← parseSource_eq_ok_iff, hparse'] at hparse
      exact (Except.ok.inj hparse).symm
  · intro source p _
    exact ⟨p, parseSource_text p, rfl⟩

/-- Two spellings of a loop with an empty loop at its end. -/
theorem parseSource_text_inverse_nested_loop :
    (parseSource "go [x>[] y]" = .ok [.loop [.command .moveRight, .loop []]] ∧
        Program.text [.loop [.command .moveRight, .loop []]] = "[>[]]") ∧
      parseSource "[>[]]" = .ok [.loop [.command .moveRight, .loop []]] ∧
        symbols "go [x>[] y]" = symbols "[>[]]" := by
  obtain ⟨hback, hforth, hsame, -⟩ := parseSource_text_inverse
  have hparse : parseSource "go [x>[] y]" = .ok [.loop [.command .moveRight, .loop []]] := rfl
  have htext : Program.text [.loop [.command .moveRight, .loop []]] = "[>[]]" :=
    (hforth _ _ hparse).trans rfl
  have hbare : parseSource "[>[]]" = .ok [.loop [.command .moveRight, .loop []]] := by
    rw [← htext]
    exact hback _
  exact ⟨⟨hparse, htext⟩, hbare, (hsame _ _ _ _ hparse hbare).mp rfl⟩

end Brainfuck
