import Brainfuck.Proofs.Nesting
import Brainfuck.Proofs.Slices
import Mathlib.Data.Nat.Find

/-!
Partners among brackets. An opening and a closing bracket are partners if what stands between
them is balanced. The height, which is the number of loops that are open at a place, finds
them: the partner of an opening bracket is the first place where the height is back to what it
was (`partners_iff`). So an opening bracket has no partner if the height stays above what it
was before, and a closing one has none if it takes the height below all that it has been
(`unmatched_iff`), which keeps the closing ones without a partner in front of the opening ones
(`ClosesNothing.lt`).

A bracket without a partner does not stand between partners, and it keeps no others from
becoming partners. It can be taken out, and all other brackets have the partners that they had
before (`Unmatched.partners_eraseIdx`).
-/

set_option autoImplicit false
set_option relaxedAutoImplicit false

namespace Brainfuck

/-- How many loops are open behind the first `k` opcodes. -/
def height (ops : List Opcode) (k : Nat) : Int :=
  nesting .loopBegin .loopEnd ops k

/-- Every loop that is opened is closed, and no other. -/
def Balanced (ops : List Opcode) : Prop :=
  (∀ k ≤ ops.length, 0 ≤ height ops k) ∧ height ops ops.length = 0

/-- An opening and a closing bracket are partners if what stands between them is balanced. -/
def Partners (ops : List Opcode) (i j : Nat) : Prop :=
  i < j ∧ ops[i]? = some .loopBegin ∧ ops[j]? = some .loopEnd ∧ Balanced (between ops i j)

/-- A bracket without a partner. -/
def Unmatched (ops : List Opcode) (p : Nat) : Prop :=
  (ops[p]? = some .loopBegin ∨ ops[p]? = some .loopEnd) ∧
    ∀ q, ¬ Partners ops p q ∧ ¬ Partners ops q p

instance (ops : List Opcode) : Decidable (Balanced ops) :=
  inferInstanceAs (Decidable (_ ∧ _))

instance (ops : List Opcode) (i j : Nat) : Decidable (Partners ops i j) :=
  inferInstanceAs (Decidable (_ ∧ _ ∧ _ ∧ _))

variable {ops : List Opcode} {i j k p q : Nat}

theorem Partners.lt_length (h : Partners ops i j) : i < ops.length ∧ j < ops.length := by
  obtain ⟨-, hi, hj, -⟩ := h
  exact ⟨(List.getElem?_eq_some_iff.mp hi).1, (List.getElem?_eq_some_iff.mp hj).1⟩

theorem unmatched_iff_forall_lt :
    ((ops[p]? = some .loopBegin ∨ ops[p]? = some .loopEnd) ∧
        ∀ q < ops.length, ¬ Partners ops p q ∧ ¬ Partners ops q p) ↔ Unmatched ops p :=
  and_congr_right fun _ ↦ ⟨fun h q ↦ ⟨fun hpq ↦ (h q hpq.lt_length.2).1 hpq,
    fun hqp ↦ (h q hqp.lt_length.1).2 hqp⟩, fun h q _ ↦ h q⟩

instance (ops : List Opcode) (p : Nat) : Decidable (Unmatched ops p) :=
  decidable_of_iff _ unmatched_iff_forall_lt

/-! ### Heights -/

/-- An opening bracket raises the height by one, a closing one lowers it, and nothing else
changes it. -/
theorem height_succ (ops : List Opcode) (k : Nat) :
    (ops[k]? = some .loopBegin ∧ height ops (k + 1) = height ops k + 1) ∨
      (ops[k]? = some .loopEnd ∧ height ops (k + 1) = height ops k - 1) ∨
      (ops[k]? ≠ some .loopBegin ∧ ops[k]? ≠ some .loopEnd ∧
        height ops (k + 1) = height ops k) := by
  unfold height nesting
  rw [List.take_add_one]
  cases hget : ops[k]? with
  | none => simp
  | some o =>
    cases o with
    | command c => simp
    | loopBegin =>
      refine .inl ⟨rfl, ?_⟩
      simp
      omega
    | loopEnd =>
      refine .inr (.inl ⟨rfl, ?_⟩)
      simp
      omega

theorem height_succ_of_loopBegin (hget : ops[k]? = some .loopBegin) :
    height ops (k + 1) = height ops k + 1 := by
  rcases height_succ ops k with ⟨-, h⟩ | ⟨hend, -⟩ | ⟨hne, -⟩
  · exact h
  · rw [hget] at hend
    cases hend
  · exact absurd hget hne

theorem height_succ_of_loopEnd (hget : ops[k]? = some .loopEnd) :
    height ops (k + 1) = height ops k - 1 := by
  rcases height_succ ops k with ⟨hbegin, -⟩ | ⟨-, h⟩ | ⟨-, hne, -⟩
  · rw [hget] at hbegin
    cases hbegin
  · exact h
  · exact absurd hget hne

/-- Behind the first of two sequences the height goes on from where that one left it. -/
theorem height_append_length_add (first second : List Opcode) (k : Nat) :
    height (first ++ second) (first.length + k) =
      height first first.length + height second k :=
  nesting_append_length_add first second k

theorem height_take (hk : k ≤ j) : height (ops.take j) k = height ops k := by
  rw [height, height, nesting, nesting, List.take_take, Nat.min_eq_left hk]

/-- Between two places the height counts from what it is behind the first. -/
theorem height_between (hi : i < ops.length) (hk : i + 1 + k ≤ j) :
    height (between ops i j) k = height ops (i + 1 + k) - height ops (i + 1) := by
  have hlength : ((ops.take j).take (i + 1)).length = i + 1 := by
    rw [List.length_take, List.length_take]
    omega
  have hwhole : height (ops.take j) (i + 1 + k) =
      height ((ops.take j).take (i + 1)) (i + 1) + height (between ops i j) k := by
    have happend :=
      height_append_length_add ((ops.take j).take (i + 1)) ((ops.take j).drop (i + 1)) k
    rwa [List.take_append_drop, hlength] at happend
  rw [height_take hk, height_take le_rfl, height_take (by omega)] at hwhole
  omega

/-- Partners by heights: the closing bracket is the first place behind the opening one where the
height comes back to what it was. -/
theorem partners_iff :
    Partners ops i j ↔ i < j ∧ ops[i]? = some .loopBegin ∧ ops[j]? = some .loopEnd ∧
      height ops (j + 1) = height ops i ∧
      ∀ k, i < k → k ≤ j → height ops i < height ops k := by
  unfold Partners
  refine and_congr_right fun hlt ↦ and_congr_right fun hi ↦ and_congr_right fun hj ↦ ?_
  obtain ⟨hilt, -⟩ := List.getElem?_eq_some_iff.mp hi
  obtain ⟨hjlt, -⟩ := List.getElem?_eq_some_iff.mp hj
  have hlength : (between ops i j).length = j - (i + 1) := by
    rw [between, List.length_drop, List.length_take, Nat.min_eq_left hjlt.le]
  have hopen := height_succ_of_loopBegin hi
  have hclose := height_succ_of_loopEnd hj
  unfold Balanced
  rw [hlength]
  constructor
  · rintro ⟨hnever, hzero⟩
    rw [height_between hilt (by omega), Nat.add_sub_cancel' hlt] at hzero
    refine ⟨by omega, fun k hik hkj ↦ ?_⟩
    obtain ⟨m, rfl⟩ : ∃ m, k = i + 1 + m := Nat.exists_eq_add_of_le hik
    have hnonneg := hnever m (by omega)
    rw [height_between hilt hkj] at hnonneg
    omega
  · rintro ⟨hback, habove⟩
    constructor
    · intro m hm
      have hpos := habove (i + 1 + m) (by omega) (by omega)
      rw [height_between hilt (by omega)]
      omega
    · rw [height_between hilt (by omega), Nat.add_sub_cancel' hlt]
      omega

/-! ### Brackets without a partner -/

/-- Behind an opening bracket the height stays above what it was before. -/
def StaysOpen (ops : List Opcode) (p : Nat) : Prop :=
  ops[p]? = some .loopBegin ∧ ∀ k, p < k → k ≤ ops.length → height ops p < height ops k

/-- A closing bracket takes the height below all that it has been before. -/
def ClosesNothing (ops : List Opcode) (p : Nat) : Prop :=
  ops[p]? = some .loopEnd ∧ ∀ k ≤ p, height ops (p + 1) < height ops k

/-- An opening bracket is closed at the first place where the height is back. -/
theorem exists_partners_of_loopBegin (hget : ops[p]? = some .loopBegin) (hpk : p < k)
    (hback : height ops k ≤ height ops p) :
    ∃ j, Partners ops p j := by
  have hex : ∃ m, p < m ∧ height ops m ≤ height ops p := ⟨k, hpk, hback⟩
  obtain ⟨hlt, hle⟩ := Nat.find_spec hex
  have habove (m : Nat) (hpm : p < m) (hm : m < Nat.find hex) : height ops p < height ops m := by
    by_contra hnot
    exact Nat.find_min hex hm ⟨hpm, Int.not_lt.mp hnot⟩
  obtain ⟨j, hj⟩ : ∃ j, Nat.find hex = j + 1 := Nat.exists_eq_add_one_of_ne_zero (by omega)
  rw [hj] at hlt hle habove
  have hopen := height_succ_of_loopBegin hget
  have hpj : p < j := by
    by_contra hnot
    obtain rfl : j = p := by omega
    omega
  have hbefore := habove j hpj (Nat.lt_succ_self j)
  refine ⟨j, partners_iff.mpr ?_⟩
  rcases height_succ ops j with ⟨-, hstep⟩ | ⟨hend, hstep⟩ | ⟨-, -, hstep⟩
  · omega
  · exact ⟨hpj, hget, hend, by omega, fun m hpm hm ↦ habove m hpm (by omega)⟩
  · omega

/-- A closing bracket closes the last place where the height was what it is behind. -/
theorem exists_partners_of_loopEnd (hget : ops[p]? = some .loopEnd) (hk : k ≤ p)
    (hlow : height ops k ≤ height ops (p + 1)) : ∃ i, Partners ops i p := by
  obtain ⟨i, hi⟩ : ∃ i, Nat.findGreatest (fun m ↦ height ops m ≤ height ops (p + 1)) p = i :=
    ⟨_, rfl⟩
  have hle : height ops i ≤ height ops (p + 1) :=
    hi ▸ Nat.findGreatest_spec (P := fun m ↦ height ops m ≤ height ops (p + 1)) hk hlow
  have hip : i ≤ p := hi ▸ Nat.findGreatest_le p
  have habove (m : Nat) (him : i < m) (hm : m ≤ p) : height ops (p + 1) < height ops m :=
    Int.not_le.mp (Nat.findGreatest_is_greatest (hi ▸ him) hm)
  have hclose := height_succ_of_loopEnd hget
  have hlt : i < p := by
    refine lt_of_le_of_ne hip ?_
    rintro rfl
    omega
  have hbehind := habove (i + 1) (Nat.lt_succ_self i) hlt
  refine ⟨i, partners_iff.mpr ?_⟩
  rcases height_succ ops i with ⟨hbegin, hstep⟩ | ⟨-, hstep⟩ | ⟨-, -, hstep⟩
  · have hsame : height ops (p + 1) = height ops i := by omega
    exact ⟨hlt, hbegin, hget, hsame, fun m him hm ↦ hsame ▸ habove m him hm⟩
  · omega
  · omega

/-- The brackets without a partner, by heights. -/
theorem unmatched_iff : Unmatched ops p ↔ StaysOpen ops p ∨ ClosesNothing ops p := by
  constructor
  · rintro ⟨hbegin | hend, hnone⟩
    · refine .inl ⟨hbegin, fun k hpk hk ↦ ?_⟩
      by_contra hnot
      obtain ⟨j, hpartners⟩ := exists_partners_of_loopBegin hbegin hpk (Int.not_lt.mp hnot)
      exact (hnone j).1 hpartners
    · refine .inr ⟨hend, fun k hk ↦ ?_⟩
      by_contra hnot
      obtain ⟨i, hpartners⟩ := exists_partners_of_loopEnd hend hk (Int.not_lt.mp hnot)
      exact (hnone i).2 hpartners
  · rintro (⟨hbegin, habove⟩ | ⟨hend, hbelow⟩)
    · refine ⟨.inl hbegin, fun q ↦ ⟨fun h ↦ ?_, fun h ↦ ?_⟩⟩
      · obtain ⟨hlt, -, -, hback, -⟩ := partners_iff.mp h
        have hhigher := habove (q + 1) (by omega) h.lt_length.2
        omega
      · obtain ⟨-, -, hget, -⟩ := h
        rw [hbegin] at hget
        cases hget
    · refine ⟨.inr hend, fun q ↦ ⟨fun h ↦ ?_, fun h ↦ ?_⟩⟩
      · obtain ⟨-, hget, -⟩ := h
        rw [hend] at hget
        cases hget
      · obtain ⟨hlt, -, -, hback, -⟩ := partners_iff.mp h
        have hlower := hbelow q hlt.le
        omega

theorem Unmatched.staysOpen (hp : Unmatched ops p) (hget : ops[p]? = some .loopBegin) :
    StaysOpen ops p := by
  rcases unmatched_iff.mp hp with hopen | ⟨hend, -⟩
  · exact hopen
  · rw [hget] at hend
    cases hend

theorem Unmatched.lt_length (hp : Unmatched ops p) : p < ops.length := by
  obtain hget | hget := hp.1
  · exact (List.getElem?_eq_some_iff.mp hget).1
  · exact (List.getElem?_eq_some_iff.mp hget).1

/-- All closing brackets without a partner stand in front of all opening ones. -/
theorem ClosesNothing.lt (hq : ClosesNothing ops q) (hp : StaysOpen ops p) : q < p := by
  by_contra hnot
  obtain ⟨hqlt, -⟩ := List.getElem?_eq_some_iff.mp hq.1
  have hhigher := hp.2 (q + 1) (by omega) hqlt
  have hlower := hq.2 p (by omega)
  omega

/-- Partners never stand around a bracket that has none. -/
theorem Unmatched.not_between (hp : Unmatched ops p) (h : Partners ops i j) (hip : i < p) :
    ¬ p < j := by
  intro hpj
  obtain ⟨-, -, hj, hback, habove⟩ := partners_iff.mp h
  obtain ⟨hjlt, -⟩ := List.getElem?_eq_some_iff.mp hj
  rcases unmatched_iff.mp hp with ⟨-, hhigher⟩ | ⟨-, hlower⟩
  · have hend := hhigher (j + 1) (by omega) hjlt
    have hinside := habove p hip hpj.le
    omega
  · have hstart := hlower i hip.le
    have hinside := habove (p + 1) (by omega) hpj
    omega

/-! ### Taking a bracket out -/

/-- Where the opcode at `k` stood before the one at `p` was taken out. -/
def skip (p k : Nat) : Nat :=
  if k < p then k else k + 1

theorem getElem?_eraseIdx_skip (ops : List Opcode) (p k : Nat) :
    (ops.eraseIdx p)[k]? = ops[skip p k]? := by
  rw [List.getElem?_eraseIdx, skip]
  split <;> rfl

theorem height_eraseIdx_of_le (hp : p < ops.length) (hk : k ≤ p) :
    height (ops.eraseIdx p) k = height ops k := by
  have hlength : (ops.take p).length = p := by
    rw [List.length_take, Nat.min_eq_left hp.le]
  rw [List.eraseIdx_eq_take_drop_succ, height, nesting_append_of_le (hlength.symm ▸ hk)]
  exact height_take hk

/-- Behind the bracket that is taken out, the height has lost what that bracket gave. -/
theorem height_eraseIdx_of_ge (hp : p < ops.length) (hk : p ≤ k) :
    height (ops.eraseIdx p) k = height ops (k + 1) - (height ops (p + 1) - height ops p) := by
  obtain ⟨m, rfl⟩ := Nat.exists_eq_add_of_le hk
  have hlength : (ops.take p).length = p := by
    rw [List.length_take, Nat.min_eq_left hp.le]
  have hlength' : (ops.take (p + 1)).length = p + 1 := by
    rw [List.length_take, Nat.min_eq_left hp]
  have hwith : height ops (p + 1 + m) = height ops (p + 1) + height (ops.drop (p + 1)) m := by
    have happend := height_append_length_add (ops.take (p + 1)) (ops.drop (p + 1)) m
    rwa [List.take_append_drop, hlength', height_take le_rfl] at happend
  have hwithout : height (ops.eraseIdx p) (p + m) =
      height ops p + height (ops.drop (p + 1)) m := by
    have happend := height_append_length_add (ops.take p) (ops.drop (p + 1)) m
    rwa [← List.eraseIdx_eq_take_drop_succ, hlength, height_take le_rfl] at happend
  rw [hwithout, Nat.add_right_comm, hwith]
  omega

/-- Nor do two brackets become partners when one between them is taken out that has none. -/
theorem Unmatched.not_between_eraseIdx (hp : Unmatched ops p)
    (h : Partners (ops.eraseIdx p) i j) (hip : i < p) : ¬ p ≤ j := by
  intro hpj
  obtain ⟨-, -, hj, hback, habove⟩ := partners_iff.mp h
  obtain ⟨hjlt, -⟩ := List.getElem?_eq_some_iff.mp hj
  have hplt := hp.lt_length
  rw [List.length_eraseIdx_of_lt hplt] at hjlt
  have hinside := habove p hip hpj
  rw [height_eraseIdx_of_ge hplt (by omega), height_eraseIdx_of_le hplt hip.le] at hback
  rw [height_eraseIdx_of_le hplt hip.le, height_eraseIdx_of_le hplt le_rfl] at hinside
  rcases unmatched_iff.mp hp with ⟨hbegin, hhigher⟩ | ⟨hend, hlower⟩
  · have hopen := height_succ_of_loopBegin hbegin
    have hend := hhigher (j + 1 + 1) (by omega) (by omega)
    omega
  · have hclose := height_succ_of_loopEnd hend
    have hstart := hlower i hip.le
    omega

/-- A bracket that has no partner can be taken out without any effect on who the partners
are. -/
theorem Unmatched.partners_eraseIdx (hp : Unmatched ops p) (i j : Nat) :
    Partners (ops.eraseIdx p) i j ↔ Partners ops (skip p i) (skip p j) := by
  have hplt := hp.lt_length
  by_cases hi : i < p
  · by_cases hj : j < p
    · have hsame (k : Nat) (hk : k ≤ p) := height_eraseIdx_of_le hplt hk
      rw [partners_iff, partners_iff, getElem?_eraseIdx_skip, getElem?_eraseIdx_skip, skip, skip,
        if_pos hi, if_pos hj, hsame (j + 1) hj, hsame i hi.le]
      refine and_congr_right fun hlt ↦ and_congr_right fun _ ↦ and_congr_right fun _ ↦
        and_congr_right fun _ ↦ forall_congr' fun k ↦ ?_
      refine imp_congr_right fun _ ↦ imp_congr_right fun hk ↦ ?_
      rw [hsame k (by omega)]
    · refine iff_of_false (fun h ↦ hp.not_between_eraseIdx h hi (by omega)) fun h ↦ ?_
      rw [skip, skip, if_pos hi, if_neg hj] at h
      exact hp.not_between h hi (by omega)
  · by_cases hj : j < p
    · refine iff_of_false (fun h ↦ ?_) fun h ↦ ?_
      · have hlt := h.1
        omega
      · have hlt := h.1
        rw [skip, skip, if_neg hi, if_pos hj] at hlt
        omega
    · have hshift (k : Nat) (hk : p ≤ k) := height_eraseIdx_of_ge hplt hk
      rw [partners_iff, partners_iff, getElem?_eraseIdx_skip, getElem?_eraseIdx_skip, skip, skip,
        if_neg hi, if_neg hj, hshift (j + 1) (by omega), hshift i (by omega)]
      constructor
      · rintro ⟨hlt, hbegin, hend, hback, habove⟩
        refine ⟨by omega, hbegin, hend, by omega, fun k hik hkj ↦ ?_⟩
        obtain ⟨m, rfl⟩ : ∃ m, k = m + 1 := Nat.exists_eq_add_one_of_ne_zero (by omega)
        have hm := habove m (by omega) (by omega)
        rw [hshift m (by omega)] at hm
        omega
      · rintro ⟨hlt, hbegin, hend, hback, habove⟩
        refine ⟨by omega, hbegin, hend, by omega, fun k hik hkj ↦ ?_⟩
        rw [hshift k (by omega)]
        have hk := habove (k + 1) (by omega) (by omega)
        omega

theorem exists_skip_eq (hqp : q ≠ p) : ∃ k, skip p k = q := by
  by_cases hlt : q < p
  · exact ⟨q, if_pos hlt⟩
  · refine ⟨q - 1, ?_⟩
    rw [skip, if_neg (by omega)]
    omega

/-- Whatever has no partner keeps having none, and the others keep theirs. -/
theorem Unmatched.unmatched_eraseIdx (hp : Unmatched ops p) (k : Nat) :
    Unmatched (ops.eraseIdx p) k ↔ Unmatched ops (skip p k) := by
  unfold Unmatched
  rw [getElem?_eraseIdx_skip]
  refine and_congr_right fun _ ↦ ⟨fun h q ↦ ?_, fun h q ↦ ?_⟩
  · by_cases hqp : q = p
    · subst hqp
      exact (hp.2 (skip q k)).symm
    · obtain ⟨m, rfl⟩ := exists_skip_eq hqp
      rw [← hp.partners_eraseIdx, ← hp.partners_eraseIdx]
      exact h m
  · rw [hp.partners_eraseIdx, hp.partners_eraseIdx]
    exact h (skip p q)

end Brainfuck
