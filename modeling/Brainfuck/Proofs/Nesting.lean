import Brainfuck.Proofs.Spelling
import Mathlib.Data.List.Count
import Mathlib.Order.Bounds.Basic

/-!
Brackets by counting. The nesting after the first `k` elements of a sequence is the
number of brackets opened there less the number of brackets closed. It decides
what parsing answers (`JudgedByNesting`): a closing bracket has no partner where the
nesting first falls below zero, and a sequence that never falls below zero
but does not return to it has an open bracket where it left zero for the last
time.

The builder keeps track of the nesting by its frames (`Builder.Tracks`): there is
one frame for each open bracket, and the nesting has not come back to the height at
which a frame was opened. The judgement is about opcodes first. Since opcodes and
symbols correspond one for one, it holds of the symbols of a source text as well, so
comments change neither the answer nor a position in it.
-/

set_option autoImplicit false
set_option relaxedAutoImplicit false

namespace Brainfuck

section Nesting

variable {α : Type} [DecidableEq α] {opening closing : α}

/-- How many more brackets are opened than closed among the first `k` elements. -/
def nesting (opening closing : α) (xs : List α) (k : Nat) : Int :=
  ((xs.take k).count opening : Int) - ((xs.take k).count closing : Int)

@[simp] theorem nesting_zero (xs : List α) : nesting opening closing xs 0 = 0 := by
  simp [nesting]

theorem nesting_append (xs ys : List α) (k : Nat) :
    nesting opening closing (xs ++ ys) k =
      nesting opening closing xs k + nesting opening closing ys (k - xs.length) := by
  simp only [nesting, List.take_append, List.count_append]
  omega

theorem nesting_append_of_le {xs : List α} {k : Nat} (hk : k ≤ xs.length) (ys : List α) :
    nesting opening closing (xs ++ ys) k = nesting opening closing xs k := by
  rw [nesting_append, Nat.sub_eq_zero_of_le hk, nesting_zero, Int.add_zero]

theorem nesting_of_length_le {xs : List α} {k : Nat} (hk : xs.length ≤ k) :
    nesting opening closing xs k = nesting opening closing xs xs.length := by
  rw [nesting, nesting, List.take_of_length_le hk, List.take_length]

theorem nesting_append_length_add (xs ys : List α) (k : Nat) :
    nesting opening closing (xs ++ ys) (xs.length + k) =
      nesting opening closing xs xs.length + nesting opening closing ys k := by
  rw [nesting_append, nesting_of_length_le (Nat.le_add_right xs.length k), Nat.add_sub_cancel_left]

theorem nesting_cons_succ (x : α) (xs : List α) (k : Nat) :
    nesting opening closing (x :: xs) (k + 1) =
      nesting opening closing xs k + ((if x = opening then 1 else 0) -
        if x = closing then 1 else 0) := by
  simp only [nesting, List.take_succ_cons, List.count_cons, beq_iff_eq]
  split <;> split <;> omega

theorem nesting_concat (xs : List α) (x : α) :
    nesting opening closing (xs ++ [x]) (xs.length + 1) = nesting opening closing xs xs.length +
      ((if x = opening then 1 else 0) - if x = closing then 1 else 0) := by
  rw [nesting_append_length_add, nesting_cons_succ, nesting_zero, Int.zero_add]

theorem nesting_map {β : Type} [DecidableEq β] {f : α → β} (hf : Function.Injective f)
    (xs : List α) (k : Nat) :
    nesting (f opening) (f closing) (xs.map f) k = nesting opening closing xs k := by
  rw [nesting, nesting, ← List.map_take, List.count_map_of_injective _ f hf,
    List.count_map_of_injective _ f hf]

/-- No part of a sequence, read from its start, closes more than it opens. -/
def NeverExceeds (opening closing : α) (xs : List α) : Prop :=
  ∀ k ≤ xs.length, 0 ≤ nesting opening closing xs k

/-- The first place after which more is closed than was opened. -/
def IsFirstExcess (opening closing : α) (xs : List α) (p : Nat) : Prop :=
  IsLeast {q | q < xs.length ∧ nesting opening closing xs (q + 1) < 0} p

/-- A bracket that opens at nesting zero, to which the nesting never returns. -/
def IsOutermostOpen (opening closing : α) (xs : List α) (p : Nat) : Prop :=
  xs[p]? = some opening ∧ nesting opening closing xs p = 0 ∧
    ∀ k, p < k → k ≤ xs.length → 1 ≤ nesting opening closing xs k

/-- What parsing answers is what the nesting says. -/
structure JudgedByNesting (opening closing : α) (xs : List α)
    (answer : Except ParseError Program) : Prop where
  unmatchedEnd_iff (p : Nat) :
    answer = .error (.unmatchedEnd p) ↔ IsFirstExcess opening closing xs p
  unmatchedStart_iff (p : Nat) :
    answer = .error (.unmatchedStart p) ↔ NeverExceeds opening closing xs ∧
      0 < nesting opening closing xs xs.length ∧ IsOutermostOpen opening closing xs p
  existsUnique_outermostOpen :
    NeverExceeds opening closing xs → 0 < nesting opening closing xs xs.length →
      ∃! p, IsOutermostOpen opening closing xs p
  ok_iff : (∃ program, answer = .ok program) ↔
    NeverExceeds opening closing xs ∧ nesting opening closing xs xs.length = 0

theorem NeverExceeds.concat {xs : List α} {x : α} (h : NeverExceeds opening closing xs)
    (hnonneg : 0 ≤ nesting opening closing (xs ++ [x]) (xs.length + 1)) :
    NeverExceeds opening closing (xs ++ [x]) := by
  intro k hk
  rw [List.length_append, List.length_singleton] at hk
  rcases Nat.lt_or_ge xs.length k with hlt | hge
  · obtain rfl : k = xs.length + 1 := by omega
    exact hnonneg
  · rw [nesting_append_of_le hge]
    exact h k hge

theorem IsFirstExcess.not_neverExceeds {xs : List α} {p : Nat}
    (h : IsFirstExcess opening closing xs p) : ¬ NeverExceeds opening closing xs := by
  intro hnever
  obtain ⟨hp, hneg⟩ := h.1
  have hnonneg := hnever (p + 1) hp
  omega

theorem IsOutermostOpen.unique {xs : List α} {p q : Nat}
    (hp : IsOutermostOpen opening closing xs p) (hq : IsOutermostOpen opening closing xs q) :
    p = q := by
  obtain ⟨hpget, hpzero, hpabove⟩ := hp
  obtain ⟨hqget, hqzero, hqabove⟩ := hq
  obtain ⟨hplt, -⟩ := List.getElem?_eq_some_iff.mp hpget
  obtain ⟨hqlt, -⟩ := List.getElem?_eq_some_iff.mp hqget
  rcases Nat.lt_trichotomy p q with hlt | heq | hgt
  · have hpos := hpabove q hlt hqlt.le
    omega
  · exact heq
  · have hpos := hqabove p hgt hplt.le
    omega

/-- The three judgements exclude each other, so an answer that always comes with its own
judgement is the answer of no other. -/
theorem JudgedByNesting.of_cases {xs : List α} {answer : Except ParseError Program}
    (h : (∃ p, answer = .error (.unmatchedEnd p) ∧ IsFirstExcess opening closing xs p) ∨
      (∃ p, answer = .error (.unmatchedStart p) ∧ NeverExceeds opening closing xs ∧
        0 < nesting opening closing xs xs.length ∧ IsOutermostOpen opening closing xs p) ∨
      ∃ program, answer = .ok program ∧ NeverExceeds opening closing xs ∧
        nesting opening closing xs xs.length = 0) :
    JudgedByNesting opening closing xs answer := by
  rcases h with ⟨p, rfl, hfirst⟩ | ⟨p, rfl, hnever, hpos, hopen⟩ | ⟨program, rfl, hnever, hzero⟩
  · have hexcess := hfirst.not_neverExceeds
    constructor
    · intro q
      simp only [Except.error.injEq, ParseError.unmatchedEnd.injEq]
      exact ⟨fun heq ↦ heq ▸ hfirst, fun hq ↦ hfirst.unique hq⟩
    · simp [hexcess]
    · simp [hexcess]
    · simp [hexcess]
  · constructor
    · intro q
      simp only [Except.error.injEq, reduceCtorEq, false_iff]
      exact fun hfirst ↦ hfirst.not_neverExceeds hnever
    · intro q
      simp only [Except.error.injEq, ParseError.unmatchedStart.injEq]
      exact ⟨fun heq ↦ ⟨hnever, hpos, heq ▸ hopen⟩, fun hq ↦ hopen.unique hq.2.2⟩
    · exact fun _ _ ↦ ⟨p, hopen, fun q hq ↦ hq.unique hopen⟩
    · simp [hpos.ne']
  · constructor
    · intro q
      simp only [reduceCtorEq, false_iff]
      exact fun hfirst ↦ hfirst.not_neverExceeds hnever
    · simp [hzero]
    · simp [hzero]
    · simp [hnever, hzero]

theorem JudgedByNesting.map {β : Type} [DecidableEq β] {f : α → β} (hf : Function.Injective f)
    {xs : List α} {answer : Except ParseError Program}
    (h : JudgedByNesting opening closing xs answer) :
    JudgedByNesting (f opening) (f closing) (xs.map f) answer := by
  have hopen (p : Nat) : IsOutermostOpen (f opening) (f closing) (xs.map f) p ↔
      IsOutermostOpen opening closing xs p := by
    simp only [IsOutermostOpen, nesting_map hf, List.length_map, List.getElem?_map,
      Option.map_eq_some_iff, hf.eq_iff, exists_eq_right]
  constructor
  · simpa only [IsFirstExcess, nesting_map hf, List.length_map] using h.unmatchedEnd_iff
  · simpa only [NeverExceeds, hopen, nesting_map hf, List.length_map] using h.unmatchedStart_iff
  · simpa only [NeverExceeds, hopen, nesting_map hf, List.length_map] using
      h.existsUnique_outermostOpen
  · simpa only [NeverExceeds, nesting_map hf, List.length_map] using h.ok_iff

end Nesting

/-! ### The nesting and the frames of the builder -/

/-- Each frame stands for an opening bracket, opened when the loops below it were open and
no others, and the nesting has been higher ever since. -/
def OpenFrames (ops : List Opcode) : List Frame → Prop
  | [] => True
  | frame :: frames =>
    ops[frame.start]? = some .loopBegin ∧
      nesting .loopBegin .loopEnd ops frame.start = frames.length ∧
      (∀ k, frame.start < k → k ≤ ops.length →
        frames.length < nesting .loopBegin .loopEnd ops k) ∧
      OpenFrames ops frames

/-- What is true of a builder that has taken the opcodes `ops`. -/
structure Builder.Tracks (b : Builder) (ops : List Opcode) : Prop where
  count_eq : b.count = ops.length
  neverExceeds : NeverExceeds .loopBegin .loopEnd ops
  length_frames : (b.frames.length : Int) = nesting .loopBegin .loopEnd ops ops.length
  openFrames : OpenFrames ops b.frames

/-- Frames stay open over an opcode that leaves the nesting at their number or above. -/
theorem OpenFrames.concat {ops : List Opcode} {frames : List Frame} {o : Opcode}
    (h : OpenFrames ops frames)
    (hnesting : (frames.length : Int) ≤ nesting .loopBegin .loopEnd (ops ++ [o]) (ops.length + 1)) :
    OpenFrames (ops ++ [o]) frames := by
  induction frames with
  | nil => trivial
  | cons frame frames ih =>
    obtain ⟨hget, hstart, habove, hframes⟩ := h
    rw [List.length_cons] at hnesting
    obtain ⟨hlt, -⟩ := List.getElem?_eq_some_iff.mp hget
    refine ⟨?_, ?_, ?_, ih hframes (by omega)⟩
    · rw [List.getElem?_append_left hlt, hget]
    · rw [nesting_append_of_le hlt.le, hstart]
    · intro k hk hle
      rw [List.length_append, List.length_singleton] at hle
      rcases Nat.lt_or_ge ops.length k with hlast | hbefore
      · obtain rfl : k = ops.length + 1 := by omega
        omega
      · rw [nesting_append_of_le hbefore]
        exact habove k hk hbefore

theorem OpenFrames.isOutermostOpen {ops : List Opcode} {frames : List Frame} {outermost : Frame}
    (h : OpenFrames ops frames) (hlast : frames.getLast? = some outermost) :
    IsOutermostOpen .loopBegin .loopEnd ops outermost.start := by
  induction frames with
  | nil => simp at hlast
  | cons frame frames ih =>
    obtain ⟨hget, hstart, habove, hframes⟩ := h
    cases frames with
    | nil =>
      obtain rfl : frame = outermost := by simpa using hlast
      exact ⟨hget, hstart, habove⟩
    | cons next frames => exact ih hframes (by simpa using hlast)

namespace Builder

theorem tracks_empty : empty.Tracks [] where
  count_eq := rfl
  neverExceeds := by
    intro k hk
    rw [Nat.le_zero.mp hk, nesting_zero]
  length_frames := rfl
  openFrames := trivial

/-- An opcode that is taken takes the track along. -/
theorem Tracks.push {b b' : Builder} {ops : List Opcode} {o : Opcode} (h : b.Tracks ops)
    (hpush : b.push o = .ok b') : b'.Tracks (ops ++ [o]) := by
  have hlast : nesting .loopBegin .loopEnd (ops ++ [o]) (ops.length + 1) = _ :=
    nesting_concat ops o
  have hcount : b.count + 1 = (ops ++ [o]).length := by
    rw [h.count_eq, List.length_append, List.length_singleton]
  have hlength := h.length_frames
  rcases push_eq_ok hpush with ⟨c, rfl, rfl⟩ | ⟨rfl, rfl⟩ | ⟨frame, frames, rfl, hframes, rfl⟩
  · simp only [reduceCtorEq, ↓reduceIte] at hlast
    refine ⟨hcount, h.neverExceeds.concat (by omega), ?_, h.openFrames.concat (by omega)⟩
    change (b.frames.length : Int) = _
    rw [List.length_append, List.length_singleton, hlast]
    omega
  · simp only [reduceCtorEq, ↓reduceIte] at hlast
    refine ⟨hcount, h.neverExceeds.concat (by omega), ?_, ?_, ?_, ?_,
      h.openFrames.concat (by omega)⟩
    · rw [List.length_append, List.length_singleton, hlast, List.length_cons]
      omega
    · simp [h.count_eq]
    · rw [h.count_eq, nesting_append_of_le le_rfl, hlength]
    · intro k (hk : b.count < k) hle
      rw [← hcount] at hle
      obtain rfl : k = ops.length + 1 := by
        rw [← h.count_eq]
        omega
      omega
  · simp only [reduceCtorEq, ↓reduceIte] at hlast
    rw [hframes, List.length_cons] at hlength
    have hopen := h.openFrames
    rw [hframes] at hopen
    refine ⟨hcount, h.neverExceeds.concat (by omega), ?_, hopen.2.2.2.concat (by omega)⟩
    change (frames.length : Int) = _
    rw [List.length_append, List.length_singleton, hlast]
    omega

theorem Tracks.isFirstExcess {b : Builder} {ops rest : List Opcode} (h : b.Tracks ops)
    (hframes : b.frames = []) :
    IsFirstExcess .loopBegin .loopEnd (ops ++ .loopEnd :: rest) ops.length := by
  have hzero : nesting .loopBegin .loopEnd ops ops.length = 0 := by
    rw [← h.length_frames, hframes, List.length_nil, Int.natCast_zero]
  constructor
  · refine ⟨by simp, ?_⟩
    rw [nesting_append_length_add, nesting_cons_succ, nesting_zero, hzero]
    simp
  · rintro q ⟨-, hneg⟩
    by_contra hlt
    have hle : q + 1 ≤ ops.length := by omega
    rw [nesting_append_of_le hle] at hneg
    have hnonneg := h.neverExceeds (q + 1) hle
    omega

theorem tracks_of_foldlM_push {ops : List Opcode} {b : Builder}
    (hread : ops.foldlM Builder.push empty = .ok b) : b.Tracks ops :=
  foldlM_push_invariant (P := fun ops b ↦ b.Tracks ops) tracks_empty Tracks.push hread

theorem isFirstExcess_of_foldlM_push_error {ops : List Opcode} {e : ParseError}
    (hread : ops.foldlM Builder.push empty = .error e) :
    ∃ p, e = .unmatchedEnd p ∧ IsFirstExcess .loopBegin .loopEnd ops p := by
  obtain ⟨taken, o, rest, b, rfl, htaken, hrefused⟩ := exists_of_foldlM_push_error hread
  obtain ⟨rfl, hframes, rfl⟩ := push_eq_error hrefused
  have htracks := tracks_of_foldlM_push htaken
  exact ⟨b.count, rfl, htracks.count_eq ▸ htracks.isFirstExcess hframes⟩

end Builder

/-- Opcodes are judged by the nesting of their brackets. -/
theorem judged_parse (ops : List Opcode) :
    JudgedByNesting .loopBegin .loopEnd ops (parse ops) := by
  apply JudgedByNesting.of_cases
  rw [parse_eq_bind]
  cases hread : ops.foldlM Builder.push Builder.empty with
  | error e =>
    obtain ⟨p, rfl, hfirst⟩ := Builder.isFirstExcess_of_foldlM_push_error hread
    exact .inl ⟨p, rfl, hfirst⟩
  | ok b =>
    have htracks := Builder.tracks_of_foldlM_push hread
    have hlength := htracks.length_frames
    cases hlast : b.frames.getLast? with
    | none =>
      rw [List.getLast?_eq_none_iff.mp hlast, List.length_nil, Int.natCast_zero] at hlength
      refine .inr (.inr ⟨b.body.reverse, ?_, htracks.neverExceeds, hlength.symm⟩)
      simp only [Except.bind, Builder.finish, hlast]
    | some outermost =>
      have hne : b.frames.length ≠ 0 := by
        rintro hzero
        simp [List.length_eq_zero_iff.mp hzero] at hlast
      refine .inr (.inl ⟨outermost.start, ?_, htracks.neverExceeds, by omega,
        htracks.openFrames.isOutermostOpen hlast⟩)
      simp only [Except.bind, Builder.finish, hlast]

/-- Source texts are judged by the nesting of the brackets among their symbols. -/
theorem judged_parseSource (source : String) :
    JudgedByNesting '[' ']' (symbols source) (parseSource source) := by
  rw [← map_symbol_scan]
  exact (judged_parse (scan source)).map fun _ _ ↦ Opcode.symbol_injective

theorem parseSource_congr {source source' : String} (h : symbols source = symbols source') :
    parseSource source = parseSource source' := by
  rw [parseSource, parseSource, scan_eq_iff.mpr (h.trans (map_symbol_scan source').symm)]

theorem parseSource_insert_comment {comment : String} (h : symbols comment = [])
    (before after : String) :
    parseSource (before ++ comment ++ after) = parseSource (before ++ after) := by
  apply parseSource_congr
  simp only [symbols_append, h, List.append_nil]

/-- The nesting of the brackets decides what parsing answers, and at which position: for
opcodes, and for source texts with positions counted among their symbols. So comments
can be put in and taken out anywhere. -/
theorem parse_judged_by_nesting :
    (∀ ops : List Opcode, JudgedByNesting .loopBegin .loopEnd ops (parse ops)) ∧
      (∀ source : String, JudgedByNesting '[' ']' (symbols source) (parseSource source)) ∧
      (∀ source source' : String, symbols source = symbols source' →
        parseSource source = parseSource source') ∧
      ∀ before comment after : String, symbols comment = [] →
        parseSource (before ++ comment ++ after) = parseSource (before ++ after) :=
  ⟨judged_parse, judged_parseSource, fun _ _ ↦ parseSource_congr,
    fun before _ after hcomment ↦ parseSource_insert_comment hcomment before after⟩

/-- A comment inside an open loop does not move the position of the loop. -/
theorem parse_judged_by_nesting_open_loop :
    symbols " (open) " = [] ∧ parseSource "+[ (open) []" = .error (.unmatchedStart 1) ∧
      IsOutermostOpen '[' ']' (symbols "+[ (open) []") 1 := by
  obtain ⟨-, hjudged, -, hinsert⟩ := parse_judged_by_nesting
  have hcomment : symbols " (open) " = [] := rfl
  have hopen : parseSource "+[ (open) []" = .error (.unmatchedStart 1) :=
    (hinsert "+[" " (open) " "[]" hcomment).trans rfl
  exact ⟨hcomment, hopen, (((hjudged _).unmatchedStart_iff 1).mp hopen).2.2⟩

end Brainfuck
