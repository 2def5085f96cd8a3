import Brainfuck.Proofs.Spelling

/-!
Parsing by slices. A sequence of opcodes can be parsed by recursion: one scan counts the
open loops and remembers where the outermost of them began, and when that loop is
closed, the slice between its brackets is parsed by itself. `parseBySlices` does so. It
scans nested opcodes once for each loop around them, where the builder reads
everything once and keeps a frame for each open loop.

Between two opcodes the scan knows of the builder's frames the outermost, and how many
there are (`Scan.Follows`). The slice of the outermost loop is then the spelling of what the
builder has collected for its body, and a spelling always parses, so a recursive call
returns a program. Both ways of parsing give the same answers (`parseBySlices_eq_parse`).
-/

set_option autoImplicit false
set_option relaxedAutoImplicit false

namespace Brainfuck

/-- The same error, as seen from `offset` opcodes further to the front. -/
def ParseError.shift (offset : Nat) : ParseError → ParseError
  | .unmatchedEnd position => .unmatchedEnd (offset + position)
  | .unmatchedStart position => .unmatchedStart (offset + position)

theorem ParseError.shift_zero (e : ParseError) : e.shift 0 = e := by
  cases e <;> simp only [shift, Nat.zero_add]

/-- The opcodes strictly between two places. -/
def between (ops : List Opcode) (start stop : Nat) : List Opcode :=
  (ops.take stop).drop (start + 1)

theorem length_between_lt {ops : List Opcode} {stop : Nat} (hstop : stop < ops.length)
    (start : Nat) : (between ops start stop).length < ops.length := by
  rw [between, List.length_drop, List.length_take]
  omega

/-- A scan between two opcodes: how many loops are open, where the outermost of them began, and
the instructions in front of it. -/
structure Scan where
  index : Nat
  depth : Nat
  start : Nat
  program : Program

def Scan.initial : Scan := ⟨0, 0, 0, []⟩

/-- An error, with the number of recursive calls that it was raised in. -/
structure Raised where
  level : Nat
  error : ParseError

/-- Scans what is left of a slice, which stands `offset` opcodes behind the beginning of the
whole sequence. -/
def scanFrom (level offset : Nat) (ops : List Opcode) (s : Scan) : Except Raised Program :=
  if hindex : s.index < ops.length then
    match ops[s.index], s.depth with
    | .command c, 0 =>
      scanFrom level offset ops ⟨s.index + 1, 0, s.start, s.program ++ [.command c]⟩
    | .loopBegin, 0 => scanFrom level offset ops ⟨s.index + 1, 1, s.index, s.program⟩
    | .loopEnd, 0 => .error ⟨level, .unmatchedEnd (offset + s.index)⟩
    | .command _, depth + 1 =>
      scanFrom level offset ops ⟨s.index + 1, depth + 1, s.start, s.program⟩
    | .loopBegin, depth + 1 =>
      scanFrom level offset ops ⟨s.index + 1, depth + 2, s.start, s.program⟩
    | .loopEnd, depth + 2 =>
      scanFrom level offset ops ⟨s.index + 1, depth + 1, s.start, s.program⟩
    | .loopEnd, 1 =>
      match scanFrom (level + 1) (offset + (s.start + 1)) (between ops s.start s.index)
          .initial with
      | .ok body =>
        scanFrom level offset ops ⟨s.index + 1, 0, s.start, s.program ++ [.loop body]⟩
      | .error raised => .error raised
  else if s.depth = 0 then
    .ok s.program
  else
    .error ⟨level, .unmatchedStart (offset + s.start)⟩
termination_by (ops.length, ops.length - s.index)
decreasing_by
  · omega
  · omega
  · omega
  · omega
  · omega
  · exact Prod.Lex.left _ _ (length_between_lt hindex s.start)
  · omega

/-- The tree of an opcode sequence, slice by slice. -/
def parseBySlices (ops : List Opcode) : Except Raised Program :=
  scanFrom 0 0 ops .initial

/-! ### The scan beside the builder -/

namespace Builder

/-- What becomes of a builder when the rest of the opcodes has been read. -/
def complete (b : Builder) (rest : List Opcode) : Except ParseError Program :=
  (rest.foldlM push b).bind finish

theorem complete_of_push_ok {b b' : Builder} {ops : List Opcode} {index : Nat}
    (hindex : index < ops.length) (hpush : b.push ops[index] = .ok b') :
    b.complete (ops.drop index) = b'.complete (ops.drop (index + 1)) := by
  rw [complete, List.drop_eq_getElem_cons hindex, foldlM_push_cons, hpush]
  rfl

theorem complete_of_push_error {b : Builder} {ops : List Opcode} {index : Nat} {e : ParseError}
    (hindex : index < ops.length) (hpush : b.push ops[index] = .error e) :
    b.complete (ops.drop index) = .error e := by
  rw [complete, List.drop_eq_getElem_cons hindex, foldlM_push_cons, hpush]
  rfl

/-- A slice that spells a program is read to its end and to that program. -/
theorem complete_empty_opcodes (p : Program) : empty.complete p.opcodes = .ok p :=
  parse_eq_ok_iff.mpr rfl

end Builder

/-- A scan and a builder that have read the same opcodes: the scan knows how many frames there
are, and of the outermost one where it began and what is in front of it. Without frames
it knows the whole program. -/
structure Scan.Follows (s : Scan) (b : Builder) (ops : List Opcode) : Prop where
  count_eq : b.count = s.index
  spelled_eq : b.spelled = ops.take s.index
  length_frames : b.frames.length = s.depth
  program_eq : b.frames = [] → s.program = b.body.reverse
  outermost (frame : Frame) : b.frames.getLast? = some frame →
    frame.start = s.start ∧ frame.enclosing.reverse = s.program ∧
      s.program.opcodes.length = s.start

namespace Scan.Follows

variable {s : Scan} {b b' : Builder} {ops : List Opcode}

theorem initial (ops : List Opcode) : Scan.initial.Follows .empty ops where
  count_eq := rfl
  spelled_eq := rfl
  length_frames := rfl
  program_eq _ := rfl
  outermost _ hframe := by simp [Builder.empty] at hframe

/-- The builder takes an opcode, and the scan is told what has become of the frames. -/
theorem push (h : s.Follows b ops) (hindex : s.index < ops.length)
    (hpush : b.push ops[s.index] = .ok b') {depth start : Nat} {program : Program}
    (hlength : b'.frames.length = depth) (hprogram : b'.frames = [] → program = b'.body.reverse)
    (houtermost : ∀ frame, b'.frames.getLast? = some frame → frame.start = start ∧
      frame.enclosing.reverse = program ∧ program.opcodes.length = start) :
    (⟨s.index + 1, depth, start, program⟩ : Scan).Follows b' ops where
  count_eq := by
    have hcount : b'.count = b.count + 1 := by
      rcases Builder.push_eq_ok hpush with ⟨c, -, rfl⟩ | ⟨-, rfl⟩ | ⟨frame, frames, -, -, rfl⟩
      all_goals rfl
    rw [hcount, h.count_eq]
  spelled_eq := by
    rw [Builder.spelled_push hpush, h.spelled_eq, List.take_append_getElem hindex]
  length_frames := hlength
  program_eq := hprogram
  outermost := houtermost

theorem frames_of_depth_zero (h : s.Follows b ops) (hdepth : s.depth = 0) : b.frames = [] :=
  List.length_eq_zero_iff.mp (h.length_frames.trans hdepth)

theorem exists_frames_of_depth_succ (h : s.Follows b ops) {depth : Nat}
    (hdepth : s.depth = depth + 1) :
    ∃ frame frames, b.frames = frame :: frames ∧ frames.length = depth := by
  have hlength := h.length_frames.trans hdepth
  obtain ⟨frame, frames, hframes⟩ := List.exists_cons_of_length_eq_add_one hlength
  rw [hframes, List.length_cons] at hlength
  exact ⟨frame, frames, hframes, Nat.succ.inj hlength⟩

theorem command_outside (h : s.Follows b ops) (hindex : s.index < ops.length)
    (hdepth : s.depth = 0) {c : Command} (hget : ops[s.index] = .command c) :
    ∃ b', b.push ops[s.index] = .ok b' ∧
      (⟨s.index + 1, 0, s.start, s.program ++ [.command c]⟩ : Scan).Follows b' ops := by
  have hframes := h.frames_of_depth_zero hdepth
  have hpush : b.push ops[s.index] = .ok ⟨b.count + 1, b.frames, .command c :: b.body⟩ := by
    rw [hget, Builder.push]
  refine ⟨_, hpush, h.push hindex hpush (h.length_frames.trans hdepth) (fun _ ↦ ?_) ?_⟩
  · simp [h.program_eq hframes]
  · simp [hframes]

/-- The opcode at nesting zero that opens a loop is where the scan remembers it to be. -/
theorem loopBegin_outside (h : s.Follows b ops) (hindex : s.index < ops.length)
    (hdepth : s.depth = 0) (hget : ops[s.index] = .loopBegin) :
    ∃ b', b.push ops[s.index] = .ok b' ∧
      (⟨s.index + 1, 1, s.index, s.program⟩ : Scan).Follows b' ops := by
  have hframes := h.frames_of_depth_zero hdepth
  have hpush : b.push ops[s.index] =
      .ok ⟨b.count + 1, ⟨b.count, b.body⟩ :: b.frames, []⟩ := by
    rw [hget, Builder.push]
  have hprogram := h.program_eq hframes
  have hlength : s.program.opcodes.length = s.index := by
    have hspelled := h.spelled_eq
    rw [Builder.spelled, hframes, Frame.spelled, List.nil_append, ← hprogram] at hspelled
    rw [hspelled, List.length_take]
    omega
  refine ⟨_, hpush, h.push hindex hpush (by simp [hframes]) (by simp) fun frame hframe ↦ ?_⟩
  obtain rfl : (⟨b.count, b.body⟩ : Frame) = frame := by simpa [hframes] using hframe
  exact ⟨h.count_eq, hprogram.symm, hlength⟩

theorem command_inside (h : s.Follows b ops) (hindex : s.index < ops.length) {depth : Nat}
    (hdepth : s.depth = depth + 1) {c : Command} (hget : ops[s.index] = .command c) :
    ∃ b', b.push ops[s.index] = .ok b' ∧
      (⟨s.index + 1, depth + 1, s.start, s.program⟩ : Scan).Follows b' ops := by
  obtain ⟨frame, frames, hframes, -⟩ := h.exists_frames_of_depth_succ hdepth
  have hpush : b.push ops[s.index] = .ok ⟨b.count + 1, b.frames, .command c :: b.body⟩ := by
    rw [hget, Builder.push]
  refine ⟨_, hpush, h.push hindex hpush (h.length_frames.trans hdepth) ?_ h.outermost⟩
  simp [hframes]

theorem loopBegin_inside (h : s.Follows b ops) (hindex : s.index < ops.length) {depth : Nat}
    (hdepth : s.depth = depth + 1) (hget : ops[s.index] = .loopBegin) :
    ∃ b', b.push ops[s.index] = .ok b' ∧
      (⟨s.index + 1, depth + 2, s.start, s.program⟩ : Scan).Follows b' ops := by
  obtain ⟨frame, frames, hframes, hlength⟩ := h.exists_frames_of_depth_succ hdepth
  have hpush : b.push ops[s.index] =
      .ok ⟨b.count + 1, ⟨b.count, b.body⟩ :: b.frames, []⟩ := by
    rw [hget, Builder.push]
  refine ⟨_, hpush, h.push hindex hpush ?_ (by simp) fun frame' hframe ↦ ?_⟩
  · simp [hframes, hlength]
  · rw [hframes, List.getLast?_cons_cons, ← hframes] at hframe
    exact h.outermost frame' hframe

theorem loopEnd_inside (h : s.Follows b ops) (hindex : s.index < ops.length) {depth : Nat}
    (hdepth : s.depth = depth + 2) (hget : ops[s.index] = .loopEnd) :
    ∃ b', b.push ops[s.index] = .ok b' ∧
      (⟨s.index + 1, depth + 1, s.start, s.program⟩ : Scan).Follows b' ops := by
  obtain ⟨frame, rest, hframes, hlength⟩ := h.exists_frames_of_depth_succ hdepth
  obtain ⟨next, frames, rfl⟩ := List.exists_cons_of_length_eq_add_one hlength
  have hpush : b.push ops[s.index] =
      .ok ⟨b.count + 1, next :: frames, .loop b.body.reverse :: frame.enclosing⟩ := by
    rw [hget]
    simp only [Builder.push, hframes]
  refine ⟨_, hpush, h.push hindex hpush hlength (by simp) fun frame' hframe ↦ ?_⟩
  refine h.outermost frame' ?_
  rw [hframes, List.getLast?_cons_cons]
  exact hframe

/-- The slice of a single open loop spells what the builder has collected for its body, so it
parses to that, and closing the loop makes it the body. -/
theorem loopEnd_outermost (h : s.Follows b ops) (hindex : s.index < ops.length)
    (hdepth : s.depth = 1) (hget : ops[s.index] = .loopEnd) :
    Builder.empty.complete (between ops s.start s.index) = .ok b.body.reverse ∧
      ∃ b', b.push ops[s.index] = .ok b' ∧
        (⟨s.index + 1, 0, s.start, s.program ++ [.loop b.body.reverse]⟩ : Scan).Follows b' ops := by
  obtain ⟨frame, frames, hframes, hlength⟩ := h.exists_frames_of_depth_succ hdepth
  obtain rfl : frames = [] := List.length_eq_zero_iff.mp hlength
  obtain ⟨-, henclosing, hstart⟩ := h.outermost frame (by rw [hframes, List.getLast?_singleton])
  constructor
  · have hspelled := h.spelled_eq
    rw [Builder.spelled, hframes, Frame.spelled, Frame.spelled, List.nil_append,
      henclosing] at hspelled
    have hslice : between ops s.start s.index = Program.opcodes b.body.reverse := by
      rw [between, ← hspelled, ← hstart]
      simp
    rw [hslice, Builder.complete_empty_opcodes]
  · have hpush : b.push ops[s.index] =
        .ok ⟨b.count + 1, [], .loop b.body.reverse :: frame.enclosing⟩ := by
      rw [hget]
      simp only [Builder.push, hframes]
    refine ⟨_, hpush, h.push hindex hpush rfl (fun _ ↦ ?_) (by simp)⟩
    simp [henclosing]

/-- At the end of the opcodes both have the same answer. -/
theorem complete_at_end (h : s.Follows b ops) (hindex : ¬ s.index < ops.length) :
    b.complete (ops.drop s.index) =
      if s.depth = 0 then .ok s.program else .error (.unmatchedStart s.start) := by
  have hfinish : b.complete (ops.drop s.index) = b.finish := by
    rw [List.drop_eq_nil_of_le (Nat.le_of_not_lt hindex)]
    rfl
  rw [hfinish]
  cases hlast : b.frames.getLast? with
  | none =>
    have hframes := List.getLast?_eq_none_iff.mp hlast
    have hdepth : s.depth = 0 := by
      rw [← h.length_frames, hframes, List.length_nil]
    rw [if_pos hdepth, h.program_eq hframes]
    simp only [Builder.finish, hlast]
  | some frame =>
    have hdepth : s.depth ≠ 0 := by
      intro hzero
      simp [h.frames_of_depth_zero hzero] at hlast
    rw [if_neg hdepth, ← (h.outermost frame hlast).1]
    simp only [Builder.finish, hlast]

end Scan.Follows

/-- A scan goes on as a builder does that has read the same opcodes. -/
theorem scanFrom_eq {level offset : Nat} {ops : List Opcode} {s : Scan} {b : Builder}
    (h : s.Follows b ops) :
    scanFrom level offset ops s = (b.complete (ops.drop s.index)).mapError
      fun e ↦ ⟨level, e.shift offset⟩ := by
  -- The builder is general, since the inner scan has another one than the outer.
  fun_induction scanFrom level offset ops s generalizing b with
  | case1 level offset ops s hindex c hdepth hget ih =>
    obtain ⟨b', hpush, h'⟩ := h.command_outside hindex hdepth hget
    rw [Builder.complete_of_push_ok hindex hpush]
    exact ih h'
  | case2 level offset ops s hindex hdepth hget ih =>
    obtain ⟨b', hpush, h'⟩ := h.loopBegin_outside hindex hdepth hget
    rw [Builder.complete_of_push_ok hindex hpush]
    exact ih h'
  | case3 level offset ops s hindex hdepth hget =>
    have hpush : b.push ops[s.index] = .error (.unmatchedEnd s.index) := by
      rw [hget]
      simp only [Builder.push, h.frames_of_depth_zero hdepth, h.count_eq]
    rw [Builder.complete_of_push_error hindex hpush]
    rfl
  | case4 level offset ops s hindex c depth hdepth hget ih =>
    obtain ⟨b', hpush, h'⟩ := h.command_inside hindex hdepth hget
    rw [Builder.complete_of_push_ok hindex hpush]
    exact ih h'
  | case5 level offset ops s hindex depth hdepth hget ih =>
    obtain ⟨b', hpush, h'⟩ := h.loopBegin_inside hindex hdepth hget
    rw [Builder.complete_of_push_ok hindex hpush]
    exact ih h'
  | case6 level offset ops s hindex depth hdepth hget ih =>
    obtain ⟨b', hpush, h'⟩ := h.loopEnd_inside hindex hdepth hget
    rw [Builder.complete_of_push_ok hindex hpush]
    exact ih h'
  | case7 level offset ops s hindex hdepth hget body hbody ihslice ih =>
    obtain ⟨hslice, b', hpush, h'⟩ := h.loopEnd_outermost hindex hdepth hget
    have hparsed := (ihslice (.initial _)).trans (congrArg (Except.mapError _) hslice)
    obtain rfl : b.body.reverse = body := Except.ok.inj (hparsed.symm.trans hbody)
    rw [Builder.complete_of_push_ok hindex hpush]
    exact ih h'
  | case8 level offset ops s hindex hdepth hget raised hraised ihslice =>
    -- A recursive call cannot raise: its slice spells a program.
    obtain ⟨hslice, -⟩ := h.loopEnd_outermost hindex hdepth hget
    have hparsed := (ihslice (.initial _)).trans (congrArg (Except.mapError _) hslice)
    cases hparsed.symm.trans hraised
  | case9 level offset ops s hindex hdepth =>
    rw [h.complete_at_end hindex, if_pos hdepth]
    rfl
  | case10 level offset ops s hindex hdepth =>
    rw [h.complete_at_end hindex, if_neg hdepth]
    rfl

/-- Both ways of parsing give the same tree, or the same error at the same place. The error
is always raised by the scan of the whole sequence: none comes out of a recursive call. -/
theorem parseBySlices_eq_parse (ops : List Opcode) :
    parseBySlices ops = (parse ops).mapError fun e ↦ ⟨0, e⟩ := by
  have hscan : scanFrom 0 0 ops .initial =
      (Builder.empty.complete ops).mapError fun e ↦ ⟨0, e.shift 0⟩ :=
    scanFrom_eq (.initial ops)
  simp only [ParseError.shift_zero] at hscan
  exact hscan

example : parseBySlices [.loopBegin, .loopEnd, .loopBegin, .loopBegin, .loopEnd] =
    .error ⟨0, .unmatchedStart 2⟩ := by
  cbv

end Brainfuck
