import Brainfuck.Proofs.Nesting
import Brainfuck.Proofs.Slices

/-!
Parsing one sequence of opcodes behind another. At the seam there are the loops that the first
sequence has left open, and the second one may close them, close too many, or open more. The
nesting tells these cases apart: behind a sequence that is closed it is the nesting of the
second one, moved by the length of the first, and up to the seam it is that of the first
whatever comes behind it. So a sequence that parses only moves what is said of the one behind
it (`parse_append_error`), a stray closing bracket stays the first one
(`parse_append_of_unmatchedEnd`), and of the brackets that are left open in front of the
seam only the outermost can be reported later, or nothing in front of the seam at all
(`parse_append_of_unmatchedStart`).
-/

set_option autoImplicit false
set_option relaxedAutoImplicit false

namespace Brainfuck

section Nesting

variable {α : Type} [DecidableEq α] {opening closing : α} {xs ys : List α} {p : Nat}

/-- The nesting behind a sequence that closes all it opens is that of what comes behind it. -/
theorem nesting_append_of_closed (hclosed : nesting opening closing xs xs.length = 0)
    (ys : List α) (k : Nat) :
    nesting opening closing (xs ++ ys) (xs.length + k) = nesting opening closing ys k := by
  rw [nesting_append_length_add, hclosed, Int.zero_add]

theorem NeverExceeds.append (hxs : NeverExceeds opening closing xs)
    (hclosed : nesting opening closing xs xs.length = 0)
    (hys : NeverExceeds opening closing ys) : NeverExceeds opening closing (xs ++ ys) := by
  intro k hk
  rw [List.length_append] at hk
  by_cases hle : k ≤ xs.length
  · rw [nesting_append_of_le hle]
    exact hxs k hle
  · obtain ⟨j, rfl⟩ : ∃ j, k = xs.length + j := ⟨k - xs.length, by omega⟩
    rw [nesting_append_of_closed hclosed]
    exact hys j (by omega)

/-- Where a sequence never closes too much, there is no excess in front of the seam. -/
theorem NeverExceeds.length_le (hxs : NeverExceeds opening closing xs)
    (hneg : nesting opening closing (xs ++ ys) (p + 1) < 0) : xs.length ≤ p := by
  by_contra hlt
  have hp : p + 1 ≤ xs.length := by omega
  rw [nesting_append_of_le hp] at hneg
  exact absurd (hxs (p + 1) hp) (by omega)

theorem IsFirstExcess.append_right (h : IsFirstExcess opening closing xs p) (ys : List α) :
    IsFirstExcess opening closing (xs ++ ys) p := by
  obtain ⟨⟨hp, hneg⟩, hleast⟩ := h
  constructor
  · refine ⟨by rw [List.length_append]; omega, ?_⟩
    rwa [nesting_append_of_le hp]
  · rintro q ⟨-, hq⟩
    by_contra hlt
    rw [nesting_append_of_le (by omega)] at hq
    exact hlt (hleast ⟨by omega, hq⟩)

theorem IsFirstExcess.append_left (h : IsFirstExcess opening closing ys p)
    (hxs : NeverExceeds opening closing xs)
    (hclosed : nesting opening closing xs xs.length = 0) :
    IsFirstExcess opening closing (xs ++ ys) (xs.length + p) := by
  obtain ⟨⟨hp, hneg⟩, hleast⟩ := h
  constructor
  · refine ⟨by rw [List.length_append]; omega, ?_⟩
    rwa [Nat.add_assoc, nesting_append_of_closed hclosed]
  · rintro q ⟨hq, hqneg⟩
    obtain ⟨j, rfl⟩ := Nat.exists_eq_add_of_le (hxs.length_le hqneg)
    rw [List.length_append] at hq
    rw [Nat.add_assoc, nesting_append_of_closed hclosed] at hqneg
    exact Nat.add_le_add_left (hleast ⟨by omega, hqneg⟩) xs.length

theorem IsOutermostOpen.append_left (h : IsOutermostOpen opening closing ys p)
    (hclosed : nesting opening closing xs xs.length = 0) :
    IsOutermostOpen opening closing (xs ++ ys) (xs.length + p) := by
  obtain ⟨hget, hzero, habove⟩ := h
  refine ⟨?_, ?_, fun k hk hle ↦ ?_⟩
  · rw [List.getElem?_append_right (Nat.le_add_right _ _), Nat.add_sub_cancel_left, hget]
  · rw [nesting_append_of_closed hclosed, hzero]
  · obtain ⟨j, rfl⟩ : ∃ j, k = xs.length + j := ⟨k - xs.length, by omega⟩
    rw [List.length_append] at hle
    rw [nesting_append_of_closed hclosed]
    exact habove j (by omega) (by omega)

/-- A bracket in front of the seam that stays open was open there already. -/
theorem IsOutermostOpen.of_append (h : IsOutermostOpen opening closing (xs ++ ys) p)
    (hp : p < xs.length) : IsOutermostOpen opening closing xs p := by
  obtain ⟨hget, hzero, habove⟩ := h
  refine ⟨?_, ?_, fun k hk hle ↦ ?_⟩
  · rwa [List.getElem?_append_left hp] at hget
  · rwa [nesting_append_of_le hp.le] at hzero
  · have hpos := habove k hk (by rw [List.length_append]; omega)
    rwa [nesting_append_of_le hle] at hpos

end Nesting

variable {a b : List Opcode} {p q : Program} {position : Nat}

theorem parse_append_ok (ha : parse a = .ok p) (hb : parse b = .ok q) :
    parse (a ++ b) = .ok (p ++ q) := by
  rw [parse_eq_ok_iff] at ha hb ⊢
  rw [Program.opcodes_append, ha, hb]

theorem parse_enclose (ha : parse a = .ok p) :
    parse ([.loopBegin] ++ a ++ [.loopEnd]) = .ok [.loop p] := by
  rw [parse_eq_ok_iff] at ha ⊢
  simp [ha]

/-- Behind a sequence that parses, the errors of a sequence are its own, moved to where it is. -/
theorem parse_append_error {error : ParseError} (ha : parse a = .ok p)
    (hb : parse b = .error error) : parse (a ++ b) = .error (error.shift a.length) := by
  obtain ⟨hnever, hclosed⟩ := (judged_parse a).ok_iff.mp ⟨p, ha⟩
  cases error with
  | unmatchedEnd position =>
    have hfirst := ((judged_parse b).unmatchedEnd_iff position).mp hb
    exact ((judged_parse (a ++ b)).unmatchedEnd_iff _).mpr (hfirst.append_left hnever hclosed)
  | unmatchedStart position =>
    obtain ⟨hneverb, hpos, hopen⟩ := ((judged_parse b).unmatchedStart_iff position).mp hb
    refine ((judged_parse (a ++ b)).unmatchedStart_iff _).mpr
      ⟨hnever.append hclosed hneverb, ?_, hopen.append_left hclosed⟩
    rwa [List.length_append, nesting_append_of_closed hclosed]

theorem parse_append_of_unmatchedEnd (ha : parse a = .error (.unmatchedEnd position))
    (b : List Opcode) : parse (a ++ b) = .error (.unmatchedEnd position) := by
  have hfirst := ((judged_parse a).unmatchedEnd_iff position).mp ha
  exact ((judged_parse (a ++ b)).unmatchedEnd_iff position).mpr (hfirst.append_right b)

/-- What can become of a sequence that leaves brackets open: all are closed behind the seam, the
outermost of them is never closed, or whatever is reported stands behind the seam. -/
theorem parse_append_of_unmatchedStart (ha : parse a = .error (.unmatchedStart position))
    (b : List Opcode) :
    (∃ program, parse (a ++ b) = .ok program) ∨
      (∃ start, parse (a ++ b) = .error (.unmatchedStart start) ∧
        (start = position ∨ a.length ≤ start)) ∨
      ∃ stop, parse (a ++ b) = .error (.unmatchedEnd stop) ∧ a.length ≤ stop := by
  obtain ⟨hnever, -, hopen⟩ := ((judged_parse a).unmatchedStart_iff position).mp ha
  cases hparse : parse (a ++ b) with
  | ok program => exact .inl ⟨program, rfl⟩
  | error error =>
    cases error with
    | unmatchedEnd stop =>
      have hfirst := ((judged_parse (a ++ b)).unmatchedEnd_iff stop).mp hparse
      exact .inr (.inr ⟨stop, rfl, hnever.length_le hfirst.1.2⟩)
    | unmatchedStart start =>
      obtain ⟨-, -, hstart⟩ := ((judged_parse (a ++ b)).unmatchedStart_iff start).mp hparse
      refine .inr (.inl ⟨start, rfl, ?_⟩)
      by_cases hlt : start < a.length
      · exact .inl ((hstart.of_append hlt).unique hopen)
      · exact .inr (Nat.le_of_not_lt hlt)

/-- How sequences of opcodes parse that are put behind each other. If both parse, the programs
are put behind each other, and brackets around one of them make it the body of a loop. If only
the first parses, the error of the second is reported where it stands now. A stray closing
bracket in the first is reported whatever the second is. If the first leaves a bracket open,
the second may close it; if not, that bracket is reported or else something in the second. -/
theorem parse_concatenation (a b : List Opcode) :
    (∀ p q, parse a = .ok p → parse b = .ok q → parse (a ++ b) = .ok (p ++ q)) ∧
      (∀ p, parse a = .ok p → parse ([.loopBegin] ++ a ++ [.loopEnd]) = .ok [.loop p]) ∧
      (∀ p error, parse a = .ok p → parse b = .error error →
        parse (a ++ b) = .error (error.shift a.length)) ∧
      (∀ position, parse a = .error (.unmatchedEnd position) →
        parse (a ++ b) = .error (.unmatchedEnd position)) ∧
      ∀ position, parse a = .error (.unmatchedStart position) →
        (∃ program, parse (a ++ b) = .ok program) ∨
          (∃ start, parse (a ++ b) = .error (.unmatchedStart start) ∧
            (start = position ∨ a.length ≤ start)) ∨
          ∃ stop, parse (a ++ b) = .error (.unmatchedEnd stop) ∧ a.length ≤ stop := by
  refine ⟨?_, ?_, ?_, ?_, ?_⟩
  · intro p q ha hb
    exact parse_append_ok ha hb
  · intro p ha
    exact parse_enclose ha
  · intro p error ha hb
    exact parse_append_error ha hb
  · intro position ha
    exact parse_append_of_unmatchedEnd ha b
  · intro position ha
    exact parse_append_of_unmatchedStart ha b

/-- An empty loop with a command, with a stray bracket and in brackets; a bracket that nothing
opens; and an open bracket, closed behind the seam where another one opens. -/
theorem parse_concatenation_brackets :
    (parse [.loopBegin, .loopEnd] = .ok [.loop []] ∧
      parse [.command .read] = .ok [.command .read] ∧
      parse [.loopBegin, .loopEnd, .command .read] = .ok [.loop [], .command .read] ∧
      parse [.loopBegin, .loopBegin, .loopEnd, .loopEnd] = .ok [.loop [.loop []]]) ∧
      (parse [.command .read, .loopEnd] = .error (.unmatchedEnd 1) ∧
        parse [.loopBegin, .loopEnd, .command .read, .loopEnd] = .error (.unmatchedEnd 3)) ∧
      (parse [.loopEnd] = .error (.unmatchedEnd 0) ∧
        parse [.loopEnd, .loopBegin] = .error (.unmatchedEnd 0)) ∧
      parse [.loopBegin] = .error (.unmatchedStart 0) ∧
        ((∃ program, parse [.loopBegin, .loopEnd, .loopBegin] = .ok program) ∨
          (∃ start, parse [.loopBegin, .loopEnd, .loopBegin] = .error (.unmatchedStart start) ∧
            (start = 0 ∨ 1 ≤ start)) ∨
          ∃ stop, parse [.loopBegin, .loopEnd, .loopBegin] = .error (.unmatchedEnd stop) ∧
            1 ≤ stop) := by
  have hloop : parse [.loopBegin, .loopEnd] = .ok [.loop []] := rfl
  have hread : parse [.command .read] = .ok [.command .read] := rfl
  have hstray : parse [.command .read, .loopEnd] = .error (.unmatchedEnd 1) := rfl
  have hstop : parse [.loopEnd] = .error (.unmatchedEnd 0) := rfl
  have hstart : parse [.loopBegin] = .error (.unmatchedStart 0) := rfl
  obtain ⟨happend, henclose, -⟩ := parse_concatenation [.loopBegin, .loopEnd] [.command .read]
  obtain ⟨-, -, hmoved, -⟩ := parse_concatenation [.loopBegin, .loopEnd] [.command .read, .loopEnd]
  obtain ⟨-, -, -, hstays, -⟩ := parse_concatenation [.loopEnd] [.loopBegin]
  obtain ⟨-, -, -, -, hopen⟩ := parse_concatenation [.loopBegin] [.loopEnd, .loopBegin]
  exact ⟨⟨hloop, hread, happend _ _ hloop hread, henclose _ hloop⟩,
    ⟨hstray, hmoved _ _ hloop hstray⟩, ⟨hstop, hstays 0 hstop⟩, hstart, hopen 0 hstart⟩

end Brainfuck
