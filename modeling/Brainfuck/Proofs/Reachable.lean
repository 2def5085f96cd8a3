import Brainfuck.Proofs.FrameStack
import Mathlib.Logic.Relation

/-!
The states of a run. A run passes from state to state until a step stops it
(`Transition.stopsWith_iff_reaches`), so a property that holds at the start and survives
every step holds at each of its states (`Transition.Reaches.invariant`).

What a step of an execution can do is said once, here. Where a command lies ahead the
step is what the machine makes of the command; everywhere else the step moves through
the program, and of the machine it reads the cell under the pointer and changes
nothing (`Execution.step_of_command`, `Execution.step_elsewhere`). Where in the program it
leads is said by itself (`Execution.place_of_step`).
-/

set_option autoImplicit false
set_option relaxedAutoImplicit false

namespace Brainfuck

namespace Transition

variable {σ : Type} {step : σ → Transition σ}

/-- Some number of steps leads from one state to another. -/
def Reaches (step : σ → Transition σ) : σ → σ → Prop :=
  Relation.ReflTransGen fun s s' ↦ step s = .next s'

/-- What every step preserves holds of every state that is reached. -/
theorem Reaches.invariant {P : σ → Prop} (hstep : ∀ {s s'}, P s → step s = .next s' → P s')
    {s s' : σ} (hreaches : Reaches step s s') (hs : P s) : P s' := by
  induction hreaches with
  | refl => exact hs
  | tail _ hnext ih => exact hstep ih hnext

/-- From each state on its way a run stops as it does from the first. -/
theorem Reaches.stopsWith_iff {s s' : σ} (hreaches : Reaches step s s') {o : Outcome} :
    StopsWith step (.next s) o ↔ StopsWith step (.next s') o := by
  induction hreaches with
  | refl => rfl
  | tail _ hnext ih => rw [ih, stopsWith_next_iff, hnext]

/-- A run stops with an outcome if it reaches a state whose step stops with it. -/
theorem stopsWith_iff_reaches {s : σ} {o : Outcome} :
    StopsWith step (.next s) o ↔ ∃ last, Reaches step s last ∧ step last = .stop o := by
  constructor
  · intro hstops
    obtain ⟨fuel, hrun⟩ := hstops
    induction fuel generalizing s with
    | zero => simp [runFor] at hrun
    | succ fuel ih =>
      rw [runFor_succ_next] at hrun
      cases hstep : step s with
      | stop o' =>
        rw [hstep, runFor_stop] at hrun
        obtain rfl : o' = o := Option.some.inj hrun
        exact ⟨s, .refl, hstep⟩
      | next s' =>
        rw [hstep] at hrun
        obtain ⟨last, hreaches, hlast⟩ := ih hrun
        exact ⟨last, .head hstep hreaches, hlast⟩
  · intro hexists
    obtain ⟨last, hreaches, hlast⟩ := hexists
    rw [hreaches.stopsWith_iff, stopsWith_next_iff, hlast, stopsWith_stop_iff]

end Transition

namespace Execution

/-- The command that the next step carries out, if it carries one out. -/
def command? (e : Execution) : Option Command :=
  match e.cursor.ahead with
  | .command c :: _ => some c
  | _ => none

/-- The same place in the program, with another machine. -/
def on (e : Execution) (m : Machine) : Execution := ⟨e.cursor, e.frames, m⟩

/-- Goes on behind the instruction if it did its work. -/
def advance (e : Execution) : Outcome → Transition Execution
  | .finished m => .next ⟨e.cursor.next, e.frames, m⟩
  | .failed fault m => .stop (.failed fault m)

/-- Where a command lies ahead, the step is what the machine makes of it. -/
theorem step_of_command {e : Execution} {c : Command} (hcommand : e.command? = some c) :
    e.step = e.advance (e.machine.apply c) := by
  unfold command? at hcommand
  split at hcommand
  · next c' p hahead =>
    obtain rfl : c' = c := Option.some.inj hcommand
    simp only [step, hahead]
    cases e.machine.apply c' <;> rfl
  · exact absurd hcommand (by simp)

/-- Where no command lies ahead, the machine stays as it is, and the way the run takes
depends on the cell under the pointer only. -/
theorem step_elsewhere {e : Execution} (hcommand : e.command? = none) :
    (∃ e' : Execution, ∀ m : Machine, m.cell? = e.machine.cell? →
        (e.on m).step = .next (e'.on m)) ∨
      (∀ m : Machine, (e.on m).step = .stop (.finished m)) ∨
      e.machine.cell? = none ∧ ∀ m : Machine, m.cell? = none →
        (e.on m).step = .stop (.failed (.noCell m.pointer) m) := by
  cases hahead : e.cursor.ahead with
  | nil =>
    cases hframes : e.frames with
    | nil =>
      refine .inr (.inl fun m ↦ ?_)
      simp only [step, on, hahead, hframes]
    | cons frame frames =>
      refine .inl ⟨⟨frame, frames, e.machine⟩, fun m _ ↦ ?_⟩
      simp only [step, on, hahead, hframes]
  | cons i p =>
    cases i with
    | command c => simp [command?, hahead] at hcommand
    | loop body =>
      cases hcell : e.machine.cell? with
      | none =>
        refine .inr (.inr ⟨rfl, fun m hm ↦ ?_⟩)
        simp only [step, on, hahead, hm]
      | some value =>
        by_cases hvalue : value = 0
        · refine .inl ⟨⟨e.cursor.next, e.frames, e.machine⟩, fun m hm ↦ ?_⟩
          simp only [step, on, hahead, hm, if_pos hvalue]
        · refine .inl ⟨⟨.start body, e.cursor :: e.frames, e.machine⟩, fun m hm ↦ ?_⟩
          simp only [step, on, hahead, hm, if_neg hvalue]

/-- A step that goes on has carried a command out, or it has left the machine alone. -/
theorem step_eq_next {e e' : Execution} (hstep : e.step = .next e') :
    (e.command? = none ∧ e'.machine = e.machine) ∨
      ∃ c, e.command? = some c ∧ e.machine.apply c = .finished e'.machine := by
  cases hcommand : e.command? with
  | some c =>
    rw [step_of_command hcommand] at hstep
    cases happly : e.machine.apply c with
    | finished m =>
      rw [happly, advance, Transition.next.injEq] at hstep
      exact .inr ⟨c, rfl, by rw [happly, ← hstep]⟩
    | failed fault m => simp [happly, advance] at hstep
  | none =>
    refine .inl ⟨rfl, ?_⟩
    rcases step_elsewhere hcommand with ⟨e₁, hnext⟩ | hdone | ⟨hcell, hnone⟩
    · have hsame := hstep.symm.trans (hnext e.machine rfl)
      rw [Transition.next.inj hsame, on]
    · exact absurd (hstep.symm.trans (hdone e.machine)) (by simp)
    · exact absurd (hstep.symm.trans (hnone e.machine hcell)) (by simp)

/-- A step stops at the end of the program, at a loop without a cell to test, or at a
command that fails. -/
theorem step_eq_stop {e : Execution} {o : Outcome} (hstep : e.step = .stop o) :
    o = .finished e.machine ∨
      (e.machine.cell? = none ∧ o = .failed (.noCell e.machine.pointer) e.machine) ∨
      ∃ c fault m, e.command? = some c ∧ e.machine.apply c = .failed fault m ∧
        o = .failed fault m := by
  cases hcommand : e.command? with
  | some c =>
    rw [step_of_command hcommand] at hstep
    cases happly : e.machine.apply c with
    | finished m => simp [happly, advance] at hstep
    | failed fault m =>
      rw [happly, advance, Transition.stop.injEq] at hstep
      exact .inr (.inr ⟨c, fault, m, rfl, happly, hstep.symm⟩)
  | none =>
    rcases step_elsewhere hcommand with ⟨e₁, hnext⟩ | hdone | ⟨hcell, hnone⟩
    · exact absurd (hstep.symm.trans (hnext e.machine rfl)) (by simp)
    · exact .inl (Transition.stop.inj (hstep.symm.trans (hdone e.machine)))
    · exact .inr (.inl ⟨hcell, Transition.stop.inj (hstep.symm.trans (hnone e.machine hcell))⟩)

/-- A step that goes on leaves a body by the innermost frame, passes an instruction, or enters
the body of a loop and keeps its own place as a frame. -/
theorem place_of_step {e e' : Execution} (hstep : e.step = .next e') :
    (e.cursor.ahead = [] ∧ e.frames = e'.cursor :: e'.frames) ∨
      (∃ i p, e.cursor.ahead = i :: p ∧ e'.cursor = e.cursor.next ∧ e'.frames = e.frames) ∨
      ∃ body p, e.cursor.ahead = .loop body :: p ∧ e'.cursor = .start body ∧
        e'.frames = e.cursor :: e.frames := by
  cases hahead : e.cursor.ahead with
  | nil =>
    cases hframes : e.frames with
    | nil => simp [step, hahead, hframes] at hstep
    | cons frame frames =>
      simp only [step, hahead, hframes, Transition.next.injEq] at hstep
      subst hstep
      exact .inl ⟨rfl, rfl⟩
  | cons i p =>
    cases i with
    | command c =>
      cases happly : e.machine.apply c with
      | failed fault m => simp [step, hahead, happly] at hstep
      | finished m =>
        simp only [step, hahead, happly, Transition.next.injEq] at hstep
        subst hstep
        exact .inr (.inl ⟨_, _, rfl, rfl, rfl⟩)
    | loop body =>
      cases hcell : e.machine.cell? with
      | none => simp [step, hahead, hcell] at hstep
      | some value =>
        by_cases hvalue : value = 0
        · simp only [step, hahead, hcell, if_pos hvalue, Transition.next.injEq] at hstep
          subst hstep
          exact .inr (.inl ⟨_, _, rfl, rfl, rfl⟩)
        · simp only [step, hahead, hcell, if_neg hvalue, Transition.next.injEq] at hstep
          subst hstep
          exact .inr (.inr ⟨body, p, rfl, rfl, rfl⟩)

/-- Some number of steps leads from one state of a run to another. -/
abbrev Reaches : Execution → Execution → Prop :=
  Transition.Reaches step

end Execution

/-- A program, run on a machine, stops at the state of the run whose step stops, and flushes
what it has there. -/
theorem exists_execute_iff_reaches {p : Program} {m : Machine} {r : Outcome} :
    (∃ fuel, execute fuel p m = some r) ↔
      ∃ last o, (Execution.start p m).Reaches last ∧ last.step = .stop o ∧
        o.map Machine.flush = r := by
  simp only [execute, Option.map_eq_some_iff, Execution.runFor_eq]
  constructor
  · intro hexecute
    obtain ⟨fuel, o, hrun, hr⟩ := hexecute
    obtain ⟨last, hreaches, hlast⟩ := Transition.stopsWith_iff_reaches.mp ⟨fuel, hrun⟩
    exact ⟨last, o, hreaches, hlast, hr⟩
  · intro hlast
    obtain ⟨last, o, hreaches, hlast, hr⟩ := hlast
    obtain ⟨fuel, hrun⟩ := Transition.stopsWith_iff_reaches.mpr ⟨last, hreaches, hlast⟩
    exact ⟨fuel, o, hrun, hr⟩

theorem Program.endsWith_iff_stopsWith {p : Program} {m : Machine} {ending : Ending} :
    p.EndsWith m ending ↔
      ∃ o, Transition.StopsWith Execution.step (.next (.start p m)) o ∧ o.ending = ending := by
  simp only [Program.endsWith_iff, ← Execution.exists_runFor_start_iff, Execution.runFor_eq]
  rfl

end Brainfuck
