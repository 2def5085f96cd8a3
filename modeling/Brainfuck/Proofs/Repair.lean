import Brainfuck.Proofs.Partners
import Mathlib.Data.List.Sort

/-!
Repairing a sequence by what parsing reports. Parsing always objects to the first bracket that
has no partner (`isLeast_of_parse_error`). When that bracket is taken out, all others keep
their partners, so the next report is about the second bracket without a partner, one place
further to the front. `repair` goes on like that until the sequence parses. It takes out each
bracket that has no partner and nothing else (`repair_takes_out_unmatched`).
-/

set_option autoImplicit false
set_option relaxedAutoImplicit false

namespace Brainfuck

/-- The kind of bracket that has no partner. -/
def ParseError.bracket : ParseError → Opcode
  | .unmatchedEnd _ => .loopEnd
  | .unmatchedStart _ => .loopBegin

variable {ops : List Opcode} {p q : Nat} {error : ParseError}

/-! ### What parsing reports -/

/-- Up to a place where no loop is open, and before which nothing closes too much, every bracket
has a partner. -/
theorem le_of_unmatched (hnonneg : ∀ k ≤ p, 0 ≤ height ops k) (hzero : height ops p = 0)
    (hp : p ≤ ops.length) (hq : Unmatched ops q) : p ≤ q := by
  by_contra hlt
  rcases unmatched_iff.mp hq with ⟨-, hhigher⟩ | ⟨-, hlower⟩
  · have hstart := hnonneg q (by omega)
    have hend := hhigher p (by omega) hp
    omega
  · have hfirst : height ops 0 = 0 := nesting_zero ops
    have hstart := hlower 0 (Nat.zero_le q)
    have hend := hnonneg (q + 1) (by omega)
    omega

theorem IsFirstExcess.isLeast_unmatched (h : IsFirstExcess .loopBegin .loopEnd ops p) :
    IsLeast {q | Unmatched ops q} p ∧ ops[p]? = some .loopEnd := by
  obtain ⟨⟨hp, hneg⟩, hfirst⟩ := h
  change height ops (p + 1) < 0 at hneg
  have hnonneg (k : Nat) (hk : k ≤ p) : 0 ≤ height ops k := by
    cases k with
    | zero => exact (nesting_zero ops).ge
    | succ q =>
      by_contra hlt
      have hle : p ≤ q := hfirst ⟨by omega, Int.not_le.mp hlt⟩
      omega
  have hbefore := hnonneg p le_rfl
  rcases height_succ ops p with ⟨-, hstep⟩ | ⟨hget, hstep⟩ | ⟨-, -, hstep⟩
  · omega
  · refine ⟨⟨unmatched_iff.mpr (.inr ⟨hget, fun k hk ↦ ?_⟩), fun q hq ↦ ?_⟩, hget⟩
    · have hk := hnonneg k hk
      omega
    · exact le_of_unmatched hnonneg (by omega) hp.le hq
  · omega

theorem IsOutermostOpen.isLeast_unmatched (h : IsOutermostOpen .loopBegin .loopEnd ops p)
    (hnever : NeverExceeds .loopBegin .loopEnd ops) :
    IsLeast {q | Unmatched ops q} p ∧ ops[p]? = some .loopBegin := by
  obtain ⟨hget, hzero, habove⟩ := h
  obtain ⟨hplt, -⟩ := List.getElem?_eq_some_iff.mp hget
  change height ops p = 0 at hzero
  refine ⟨⟨unmatched_iff.mpr (.inl ⟨hget, fun k hpk hk ↦ ?_⟩), fun q hq ↦ ?_⟩, hget⟩
  · have hpos : 1 ≤ height ops k := habove k hpk hk
    omega
  · exact le_of_unmatched (fun k hk ↦ hnever k (hk.trans hplt.le)) hzero hplt.le hq

/-- Parsing objects to the first bracket that has no partner. -/
theorem isLeast_of_parse_error (hparse : parse ops = .error error) :
    IsLeast {q | Unmatched ops q} error.position ∧
      ops[error.position]? = some error.bracket := by
  cases error with
  | unmatchedEnd p =>
    exact (((judged_parse ops).unmatchedEnd_iff p).mp hparse).isLeast_unmatched
  | unmatchedStart p =>
    obtain ⟨hnever, -, hopen⟩ := ((judged_parse ops).unmatchedStart_iff p).mp hparse
    exact hopen.isLeast_unmatched hnever

/-- Where parsing has no objection, every bracket has a partner. -/
theorem not_unmatched_of_parse_ok {program : Program} (hparse : parse ops = .ok program) :
    ¬ Unmatched ops q := by
  obtain ⟨hnever, hzero⟩ := (judged_parse ops).ok_iff.mp ⟨program, hparse⟩
  intro hq
  exact absurd (le_of_unmatched hnever hzero le_rfl hq) (Nat.not_le.mpr hq.lt_length)

theorem position_lt_of_parse_error (hparse : parse ops = .error error) :
    error.position < ops.length :=
  (isLeast_of_parse_error hparse).1.1.lt_length

/-! ### Taking out what is reported -/

/-- A sequence that parses, and the reports on the way to it. -/
structure Repair where
  reports : List ParseError
  opcodes : List Opcode

/-- Takes out the opcode that parsing reports, until there is nothing to report. -/
def repair (ops : List Opcode) : Repair :=
  match _hparse : parse ops with
  | .ok _ => ⟨[], ops⟩
  | .error error =>
    let rest := repair (ops.eraseIdx error.position)
    ⟨error :: rest.reports, rest.opcodes⟩
termination_by ops.length
decreasing_by
  have hlt := position_lt_of_parse_error _hparse
  rw [List.length_eraseIdx_of_lt hlt]
  omega

/-- The places of the brackets without a partner. -/
def unmatchedPlaces (ops : List Opcode) : List Nat :=
  (List.range ops.length).filter fun p ↦ Unmatched ops p

/-- The places of all other opcodes. -/
def matchedPlaces (ops : List Opcode) : List Nat :=
  (List.range ops.length).filter fun p ↦ ¬ Unmatched ops p

theorem mem_unmatchedPlaces : p ∈ unmatchedPlaces ops ↔ Unmatched ops p := by
  simp only [unmatchedPlaces, List.mem_filter, List.mem_range, decide_eq_true_eq]
  exact and_iff_right_of_imp Unmatched.lt_length

theorem mem_matchedPlaces : p ∈ matchedPlaces ops ↔ p < ops.length ∧ ¬ Unmatched ops p := by
  simp only [matchedPlaces, List.mem_filter, List.mem_range, decide_eq_true_eq]

theorem pairwise_unmatchedPlaces (ops : List Opcode) :
    (unmatchedPlaces ops).Pairwise (· < ·) :=
  List.pairwise_lt_range.filter _

theorem pairwise_matchedPlaces (ops : List Opcode) : (matchedPlaces ops).Pairwise (· < ·) :=
  List.pairwise_lt_range.filter _

theorem skip_strictMono (p : Nat) : StrictMono (skip p) := by
  intro i j hij
  unfold skip
  split <;> split <;> omega

/-- The places of what is left, when a bracket without a partner is taken out. -/
theorem Unmatched.matchedPlaces_eq (hp : Unmatched ops p) :
    matchedPlaces ops = (matchedPlaces (ops.eraseIdx p)).map (skip p) := by
  have hplt := hp.lt_length
  refine List.Pairwise.eq_of_mem_iff (pairwise_matchedPlaces ops)
    ((pairwise_matchedPlaces _).map _ fun _ _ hlt ↦ skip_strictMono p hlt) fun q ↦ ?_
  rw [List.mem_map, mem_matchedPlaces]
  constructor
  · rintro ⟨hq, hmatched⟩
    have hqp : q ≠ p := fun hqp ↦ hmatched (hqp ▸ hp)
    obtain ⟨k, rfl⟩ := exists_skip_eq hqp
    refine ⟨k, mem_matchedPlaces.mpr ⟨?_, ?_⟩, rfl⟩
    · rw [List.length_eraseIdx_of_lt hplt]
      unfold skip at hq
      split at hq <;> omega
    · rwa [hp.unmatched_eraseIdx]
  · rintro ⟨k, hk, rfl⟩
    obtain ⟨hlt, hmatched⟩ := mem_matchedPlaces.mp hk
    rw [List.length_eraseIdx_of_lt hplt] at hlt
    refine ⟨?_, ?_⟩
    · unfold skip
      split <;> omega
    · rwa [hp.unmatched_eraseIdx] at hmatched

/-- Behind the first bracket without a partner, the others move by one place when it is taken
out. -/
theorem le_of_unmatched_eraseIdx (hleast : IsLeast {q | Unmatched ops q} p) {k : Nat}
    (hk : Unmatched (ops.eraseIdx p) k) : p ≤ k ∧ Unmatched ops (k + 1) := by
  rw [Unmatched.unmatched_eraseIdx hleast.1] at hk
  by_cases hlt : k < p
  · rw [skip, if_pos hlt] at hk
    exact absurd (hleast.2 hk) (by omega)
  · rw [skip, if_neg hlt] at hk
    exact ⟨Nat.not_lt.mp hlt, hk⟩

theorem unmatchedPlaces_eq (hleast : IsLeast {q | Unmatched ops q} p) :
    unmatchedPlaces ops = p :: (unmatchedPlaces (ops.eraseIdx p)).map (· + 1) := by
  refine List.Pairwise.eq_of_mem_iff (pairwise_unmatchedPlaces ops) ?_ fun q ↦ ?_
  · refine List.pairwise_cons.mpr ⟨fun q hq ↦ ?_, ?_⟩
    · obtain ⟨k, hk, rfl⟩ := List.mem_map.mp hq
      exact Nat.lt_succ_of_le (le_of_unmatched_eraseIdx hleast (mem_unmatchedPlaces.mp hk)).1
    · exact (pairwise_unmatchedPlaces _).map _ fun _ _ hlt ↦ Nat.succ_lt_succ hlt
  · rw [mem_unmatchedPlaces, List.mem_cons, List.mem_map]
    constructor
    · intro hq
      by_cases hqp : q = p
      · exact .inl hqp
      · have hle : p ≤ q := hleast.2 hq
        refine .inr ⟨q - 1, mem_unmatchedPlaces.mpr ?_, by omega⟩
        rw [Unmatched.unmatched_eraseIdx hleast.1, skip, if_neg (by omega)]
        rwa [Nat.sub_add_cancel (by omega)]
    · rintro (rfl | ⟨k, hk, rfl⟩)
      · exact hleast.1
      · exact (le_of_unmatched_eraseIdx hleast (mem_unmatchedPlaces.mp hk)).2

/-! ### The whole repair -/

theorem unmatchedPlaces_of_parse_ok {program : Program} (hparse : parse ops = .ok program) :
    unmatchedPlaces ops = [] := by
  refine List.eq_nil_iff_forall_not_mem.mpr fun q hq ↦ ?_
  exact not_unmatched_of_parse_ok hparse (mem_unmatchedPlaces.mp hq)

theorem matchedPlaces_of_parse_ok {program : Program} (hparse : parse ops = .ok program) :
    matchedPlaces ops = List.range ops.length := by
  refine List.filter_eq_self.mpr fun q _ ↦ ?_
  exact decide_eq_true (not_unmatched_of_parse_ok hparse)

theorem exists_parse_repair (ops : List Opcode) :
    ∃ program, parse (repair ops).opcodes = .ok program := by
  fun_induction repair ops with
  | case1 ops program hparse => exact ⟨program, hparse⟩
  | case2 ops error hparse rest ih => exact ih

/-- There is one report for each bracket without a partner. -/
theorem length_reports_repair (ops : List Opcode) :
    (repair ops).reports.length = (unmatchedPlaces ops).length := by
  fun_induction repair ops with
  | case1 ops program hparse =>
    rw [unmatchedPlaces_of_parse_ok hparse]
    rfl
  | case2 ops error hparse rest ih =>
    rw [unmatchedPlaces_eq (isLeast_of_parse_error hparse).1, List.length_cons, List.length_cons,
      List.length_map, ih]

theorem filterMap_getElem?_range (ops : List Opcode) :
    ((List.range ops.length).filterMap fun p ↦ ops[p]?) = ops := by
  induction ops with
  | nil => rfl
  | cons o ops ih =>
    rw [List.length_cons, List.range_succ_eq_map, List.filterMap_cons, List.filterMap_map]
    exact congrArg (o :: ·) ih

/-- What is left is what has a partner or needs none, in the order that it had. -/
theorem opcodes_repair (ops : List Opcode) :
    (repair ops).opcodes = (matchedPlaces ops).filterMap fun p ↦ ops[p]? := by
  fun_induction repair ops with
  | case1 ops program hparse =>
    rw [matchedPlaces_of_parse_ok hparse, filterMap_getElem?_range]
  | case2 ops error hparse rest ih =>
    rw [ih, Unmatched.matchedPlaces_eq (isLeast_of_parse_error hparse).1.1, List.filterMap_map]
    congr 1
    funext p
    exact getElem?_eraseIdx_skip ops error.position p

/-- Partners are what stood at the places of partners. -/
theorem partners_repair (ops : List Opcode) (i j : Nat) :
    Partners (repair ops).opcodes i j ↔
      ∃ i' j', (matchedPlaces ops)[i]? = some i' ∧ (matchedPlaces ops)[j]? = some j' ∧
        Partners ops i' j' := by
  fun_induction repair ops with
  | case1 ops program hparse =>
    rw [matchedPlaces_of_parse_ok hparse]
    constructor
    · intro h
      obtain ⟨hi, hj⟩ := h.lt_length
      exact ⟨i, j, List.getElem?_range hi, List.getElem?_range hj, h⟩
    · rintro ⟨i', j', hi, hj, h⟩
      obtain ⟨hilt, rfl⟩ := List.getElem?_eq_some_iff.mp hi
      obtain ⟨hjlt, rfl⟩ := List.getElem?_eq_some_iff.mp hj
      rwa [List.getElem_range, List.getElem_range] at h
  | case2 ops error hparse rest ih =>
    have hunmatched : Unmatched ops error.position := (isLeast_of_parse_error hparse).1.1
    rw [ih]
    simp only [hunmatched.matchedPlaces_eq, List.getElem?_map, Option.map_eq_some_iff,
      hunmatched.partners_eraseIdx]
    constructor
    · rintro ⟨i', j', hi, hj, h⟩
      exact ⟨_, _, ⟨i', hi, rfl⟩, ⟨j', hj, rfl⟩, h⟩
    · rintro ⟨_, _, ⟨i', hi, rfl⟩, ⟨j', hj, rfl⟩, h⟩
      exact ⟨i', j', hi, hj, h⟩

/-- What is reported is about a bracket without a partner, and where all of these lie behind a
place, so do the reports. -/
theorem mem_reports_repair (ops : List Opcode) (hlow : ∀ q, Unmatched ops q → p ≤ q)
    (hmem : error ∈ (repair ops).reports) :
    p ≤ error.position ∧ ∃ q, Unmatched ops q ∧ ops[q]? = some error.bracket := by
  fun_induction repair ops with
  | case1 ops program hparse => cases hmem
  | case2 ops first hparse rest ih =>
    obtain ⟨hleast, hget⟩ := isLeast_of_parse_error hparse
    rcases List.mem_cons.mp hmem with rfl | hmem
    · exact ⟨hlow _ hleast.1, _, hleast.1, hget⟩
    · have hrest (q : Nat) (hq : Unmatched (ops.eraseIdx first.position) q) : p ≤ q :=
        (hlow _ hleast.1).trans (le_of_unmatched_eraseIdx hleast hq).1
      obtain ⟨hle, q, hq, hbracket⟩ := ih hrest hmem
      rw [getElem?_eraseIdx_skip] at hbracket
      exact ⟨hle, _, (Unmatched.unmatched_eraseIdx hleast.1 q).mp hq, hbracket⟩

/-- A report is not in front of the ones before it, and behind one about an opening bracket there
is none about a closing one. -/
theorem pairwise_reports_repair (ops : List Opcode) :
    (repair ops).reports.Pairwise fun error later ↦ error.position ≤ later.position ∧
      (error.bracket = .loopBegin → later.bracket = .loopBegin) := by
  fun_induction repair ops with
  | case1 ops program hparse => exact .nil
  | case2 ops error hparse rest ih =>
    obtain ⟨hleast, hget⟩ := isLeast_of_parse_error hparse
    refine List.pairwise_cons.mpr ⟨fun later hlater ↦ ?_, ih⟩
    obtain ⟨hle, q, hq, hbracket⟩ := mem_reports_repair _
      (fun q hq ↦ (le_of_unmatched_eraseIdx hleast hq).1) hlater
    refine ⟨hle, fun hbegin ↦ ?_⟩
    obtain ⟨hpq, hq⟩ := le_of_unmatched_eraseIdx hleast hq
    rw [getElem?_eraseIdx_skip, skip, if_neg (Nat.not_lt.mpr hpq)] at hbracket
    rw [hbegin] at hget
    have hopen := Unmatched.staysOpen hleast.1 hget
    rcases unmatched_iff.mp hq with ⟨hlater, -⟩ | hclose
    · rw [hlater] at hbracket
      exact (Option.some.inj hbracket).symm
    · exact absurd (hclose.lt hopen) (by omega)

/-- Repairing a sequence. The only brackets that parsing ever reports are those without a
partner. If the opcode that is reported is taken out again and again, the sequence parses after
as many times as there are brackets without a partner. The reports come in order, and those
about closing brackets come first. What is left in the end are all the other opcodes, in their
order, and those are partners in it which were partners before. -/
theorem repair_takes_out_unmatched (ops : List Opcode) :
    (∀ error, parse ops = .error error →
        Unmatched ops error.position ∧ ops[error.position]? = some error.bracket) ∧
      (∃ program, parse (repair ops).opcodes = .ok program) ∧
      (repair ops).reports.length = (unmatchedPlaces ops).length ∧
      (repair ops).reports.Pairwise (fun error later ↦ error.position ≤ later.position ∧
        (error.bracket = .loopBegin → later.bracket = .loopBegin)) ∧
      (repair ops).opcodes = (matchedPlaces ops).filterMap (fun p ↦ ops[p]?) ∧
      ∀ i j, Partners (repair ops).opcodes i j ↔
        ∃ i' j', (matchedPlaces ops)[i]? = some i' ∧ (matchedPlaces ops)[j]? = some j' ∧
          Partners ops i' j' := by
  refine ⟨fun error hparse ↦ ?_, exists_parse_repair ops, length_reports_repair ops,
    pairwise_reports_repair ops, opcodes_repair ops, partners_repair ops⟩
  obtain ⟨hleast, hget⟩ := isLeast_of_parse_error hparse
  exact ⟨hleast.1, hget⟩

/-- A closing bracket without a partner, and behind it an opening one right before a loop. -/
theorem repair_takes_out_unmatched_both_kinds :
    (parse (scan "]+[[-]") = .error (.unmatchedEnd 0) ∧ Unmatched (scan "]+[[-]") 0) ∧
      (repair (scan "]+[[-]")).reports.length = 2 ∧
      (repair (scan "]+[[-]")).opcodes = scan "+[-]" ∧
      (Partners (scan "]+[[-]") 3 5 ∧ Partners (scan "+[-]") 1 3) := by
  obtain ⟨hblame, -, hlength, -, hopcodes, hpartners⟩ :=
    repair_takes_out_unmatched (scan "]+[[-]")
  have hparse : parse (scan "]+[[-]") = .error (.unmatchedEnd 0) := rfl
  have hleft : (repair (scan "]+[[-]")).opcodes = scan "+[-]" := hopcodes.trans (by decide +kernel)
  have hbefore : Partners (scan "]+[[-]") 3 5 := by decide +kernel
  refine ⟨⟨hparse, (hblame _ hparse).1⟩, hlength.trans (by decide +kernel), hleft, hbefore, ?_⟩
  rw [← hleft, hpartners]
  exact ⟨3, 5, by decide +kernel, by decide +kernel, hbefore⟩

end Brainfuck
