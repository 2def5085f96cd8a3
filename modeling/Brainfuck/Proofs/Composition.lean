import Brainfuck.Proofs.FailedRun

/-!
What a program yields, taken apart along its structure. An instruction runs, and what
follows it resumes from the outcome, which a fault ends for good (`Program.Resumes`). So a
program that is put together of two yields what the second makes of the outcomes of
the first (`Program.yields_append_iff`), and a loop is passed over or unrolled once
(`Program.yields_loop_of_zero`, `Program.yields_loop_of_ne_zero`). A loop that is over
leaves a zero (`Program.Yields.cell?_of_loop`).
-/

set_option autoImplicit false
set_option relaxedAutoImplicit false

namespace Brainfuck

namespace Program

variable {p q body : Program} {m m' : Machine} {o : Outcome}

/-- What a program makes of the outcome of what comes before it: it goes on from a good end,
and a fault stays a fault. -/
def Resumes (q : Program) : Outcome → Outcome → Prop
  | .finished m, o => q.Yields m o
  | .failed fault m, o => o = .failed fault m

theorem yields_nil_iff : Yields [] m o ↔ o = .finished m := by
  constructor
  · intro h
    cases h
    rfl
  · intro h
    subst h
    exact .nil

theorem Yields.exists_of_loop_cons (h : Yields (.loop body :: q) m o) :
    ∃ r, Yields [.loop body] m r ∧ q.Resumes r o := by
  -- On the passes: the next one stands before the same loop and the same rest.
  generalize hp : Instruction.loop body :: q = p at h
  induction h with
  | nil => cases hp
  | command => cases hp
  | commandFails => cases hp
  | loopNoCell hcell =>
    cases hp
    exact ⟨_, .loopNoCell hcell, rfl⟩
  | @loopDone _ _ m _ hcell hrest =>
    cases hp
    exact ⟨.finished m, .loopDone hcell .nil, hrest⟩
  | loopAgain hcell hvalue hbody _ _ ih =>
    cases hp
    obtain ⟨r, hloop, hrest⟩ := ih rfl
    exact ⟨r, .loopAgain hcell hvalue hbody hloop, hrest⟩
  | loopFails hcell hvalue hbody =>
    cases hp
    exact ⟨_, .loopFails hcell hvalue hbody, rfl⟩

theorem Yields.loop_cons {r : Outcome} (h : Yields [.loop body] m r) (hrest : q.Resumes r o) :
    Yields (.loop body :: q) m o := by
  generalize hp : [Instruction.loop body] = p at h
  induction h with
  | nil => cases hp
  | command => cases hp
  | commandFails => cases hp
  | loopNoCell hcell =>
    cases hp
    cases hrest
    exact .loopNoCell hcell
  | loopDone hcell hnil =>
    cases hp
    cases hnil
    exact .loopDone hcell hrest
  | loopAgain hcell hvalue hbody _ _ ih =>
    cases hp
    exact .loopAgain hcell hvalue hbody (ih hrest rfl)
  | loopFails hcell hvalue hbody =>
    cases hp
    cases hrest
    exact .loopFails hcell hvalue hbody

/-- The first instruction runs, and the others resume from its outcome. -/
theorem yields_cons_iff {i : Instruction} :
    Yields (i :: q) m o ↔ ∃ r, Yields [i] m r ∧ q.Resumes r o := by
  cases i with
  | loop body =>
    constructor
    · exact Yields.exists_of_loop_cons
    · rintro ⟨r, hloop, hrest⟩
      exact hloop.loop_cons hrest
  | command c =>
    constructor
    · intro h
      cases h with
      | @command _ _ _ m' _ hacts hrest => exact ⟨.finished m', .command hacts .nil, hrest⟩
      | commandFails hacts => exact ⟨_, .commandFails hacts, rfl⟩
    · rintro ⟨r, hcommand, hrest⟩
      cases hcommand with
      | command hacts hnil =>
        cases hnil
        exact .command hacts hrest
      | commandFails hacts =>
        cases hrest
        exact .commandFails hacts

/-- One program runs, and the other resumes from its outcome. -/
theorem yields_append_iff : (p ++ q).Yields m o ↔ ∃ r, p.Yields m r ∧ q.Resumes r o := by
  induction p generalizing m with
  | nil =>
    simp only [List.nil_append, yields_nil_iff, exists_eq_left]
    rfl
  | cons i p ih =>
    have hresumes (r : Outcome) :
        Resumes (p ++ q) r o ↔ ∃ r', Resumes p r r' ∧ Resumes q r' o := by
      cases r with
      | finished m => exact ih
      | failed fault m => simp [Resumes]
    rw [List.cons_append, yields_cons_iff]
    simp only [hresumes, yields_cons_iff (q := p)]
    constructor
    · rintro ⟨r, hi, r', hp, hq⟩
      exact ⟨r', ⟨r, hi, hp⟩, hq⟩
    · rintro ⟨r', ⟨r, hi, hp⟩, hq⟩
      exact ⟨r, hi, r', hp, hq⟩

/-! ### Loops -/

/-- A loop on a zero is passed over. -/
theorem yields_loop_of_zero (hcell : m.cell? = some 0) :
    Yields (.loop body :: q) m o ↔ q.Yields m o := by
  constructor
  · intro h
    cases h with
    | loopNoCell hnone => exact absurd (hnone.symm.trans hcell) (by simp)
    | loopDone _ hrest => exact hrest
    | loopAgain hsome hvalue => exact absurd (Option.some.inj (hsome.symm.trans hcell)) hvalue
    | loopFails hsome hvalue => exact absurd (Option.some.inj (hsome.symm.trans hcell)) hvalue
  · exact .loopDone hcell

/-- A loop on anything else is its body and then the loop again. -/
theorem yields_loop_of_ne_zero {value : UInt8} (hcell : m.cell? = some value)
    (hvalue : value ≠ 0) :
    Yields (.loop body :: q) m o ↔ Yields (body ++ .loop body :: q) m o := by
  rw [yields_append_iff]
  constructor
  · intro h
    cases h with
    | loopNoCell hnone => exact absurd (hnone.symm.trans hcell) (by simp)
    | loopDone hzero => exact absurd (Option.some.inj (hcell.symm.trans hzero)) hvalue
    | loopAgain _ _ hbody hagain => exact ⟨_, hbody, hagain⟩
    | loopFails _ _ hbody => exact ⟨_, hbody, rfl⟩
  · rintro ⟨r, hbody, hrest⟩
    cases r with
    | finished m' => exact .loopAgain hcell hvalue hbody hrest
    | failed fault m' =>
      cases hrest
      exact .loopFails hcell hvalue hbody

/-- A loop comes to a good end on a zero only. -/
theorem Yields.cell?_of_loop (h : Yields [.loop body] m (.finished m')) : m'.cell? = some 0 := by
  generalize hp : [Instruction.loop body] = p at h
  generalize ho : Outcome.finished m' = o at h
  induction h with
  | nil => cases hp
  | command => cases hp
  | commandFails => cases ho
  | loopNoCell => cases ho
  | loopDone hcell hnil =>
    cases hp
    cases hnil
    cases ho
    exact hcell
  | loopAgain _ _ _ _ _ ih => exact ih hp ho
  | loopFails => cases ho

/-- A program whose last instruction is a loop comes to a good end on a zero only. -/
theorem Yields.cell?_of_append_loop (h : Yields (p ++ [.loop body]) m (.finished m')) :
    m'.cell? = some 0 := by
  obtain ⟨r, -, hloop⟩ := yields_append_iff.mp h
  cases r with
  | finished m => exact cell?_of_loop hloop
  | failed fault m => cases hloop

/-! ### What runs keep -/

/-- What every command keeps a program keeps. -/
theorem Yields.invariant {P : Machine → Prop} (happly : ∀ m c, P m → P (m.apply c).machine)
    (h : p.Yields m o) (hm : P m) : P o.machine := by
  have hcommand {m : Machine} {c : Command} {r : Outcome} (hacts : c.Acts m r) (hm : P m) :
      P r.machine := Command.acts_iff.mp hacts ▸ happly m c hm
  induction h with
  | nil => exact hm
  | command hacts _ ih => exact ih (hcommand hacts hm)
  | commandFails hacts => exact hcommand hacts hm
  | loopNoCell => exact hm
  | loopDone _ _ ih => exact ih hm
  | loopAgain _ _ _ _ ihbody ihagain => exact ihagain (ihbody hm)
  | loopFails _ _ _ ih => exact ih hm

theorem Yields.onTape {size : Nat} (h : p.Yields m o) (hm : m.OnTape size) :
    o.machine.OnTape size := by
  refine h.invariant (P := fun m ↦ m.OnTape size) ?_ hm
  intro m c hm
  rcases hm.apply_cases c with ⟨m', hfinished, hm'⟩ | ⟨fault, hfailed, -⟩
  · rw [hfinished]
    exact hm'
  · rw [hfailed]
    exact hm

/-- Running flushes nothing; only the end of a run does. -/
theorem Yields.flushes_eq (h : p.Yields m o) :
    o.machine.flushes = m.flushes ∧ o.machine.flushable = m.flushable := by
  refine h.invariant
    (P := fun m' ↦ m'.flushes = m.flushes ∧ m'.flushable = m.flushable) ?_ ⟨rfl, rfl⟩
  intro m' c hm'
  have hkept := (m'.effect_apply c).flushes_eq
  exact ⟨hkept.1.trans hm'.1, hkept.2.trans hm'.2⟩

end Program

end Brainfuck
