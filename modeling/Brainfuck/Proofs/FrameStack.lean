import Brainfuck.Proofs.Structural

/-!
Runs with frames against the structure of the program. A frame stands at its own
loop, so the way behind a body leads back to the loop and to another test of its
cell (`Execution.returnTo`). That is all a run needs to realize the structural
rules (`Execution.realizes`). So a run ends as the structure says
(`Program.endsWith_iff`), and it goes on for ever where the structure says nothing
(`Program.runsForever_iff`).
-/

set_option autoImplicit false
set_option relaxedAutoImplicit false

namespace Brainfuck

/-- What a run leaves for others to see: its fault, if there was one, and the state of the
machine. The record of flushes is not part of it. -/
structure Ending where
  fault? : Option Fault
  tape : Array UInt8
  pointer : Int
  input : List UInt8
  output : Array UInt8

namespace Outcome

def ending (o : Outcome) : Ending :=
  ⟨o.fault?, o.machine.tape, o.machine.pointer, o.machine.input, o.machine.output⟩

@[simp] theorem ending_map_flush (o : Outcome) : (o.map Machine.flush).ending = o.ending := by
  cases o <;> simp only [map, ending, machine, fault?, Machine.flush] <;> split <;> rfl

end Outcome

namespace Execution

/-- Where a run goes behind the body that its frames are around. -/
def returnTo : List Cursor → Machine → Transition Execution
  | [], m => .stop (.finished m)
  | frame :: frames, m => .next ⟨frame, frames, m⟩

/-- A run before a piece: the piece lies ahead of the cursor, and behind it the frames
take over. -/
def StandsAt (e : Execution) (p : Program) (m : Machine)
    (leave : Machine → Transition Execution) : Prop :=
  e.cursor.ahead = p ∧ e.machine = m ∧ leave = returnTo e.frames

theorem ahead_next {cursor : Cursor} {i : Instruction} {p : Program}
    (hahead : cursor.ahead = i :: p) : cursor.next.ahead = p := by
  change cursor.ahead.tail = p
  rw [hahead, List.tail_cons]

theorem realizes : Realizes step StandsAt where
  nil := by
    rintro e _ _ ⟨hahead, rfl, rfl⟩
    rw [step, hahead]
    cases e.frames <;> rfl
  command := by
    rintro e c p _ m' _ ⟨hahead, rfl, rfl⟩ happly
    refine ⟨⟨e.cursor.next, e.frames, m'⟩, ?_, ahead_next hahead, rfl, rfl⟩
    simp only [step, hahead, happly]
  commandFails := by
    rintro e c p _ m' fault _ ⟨hahead, rfl, rfl⟩ happly
    simp only [step, hahead, happly]
  loopNoCell := by
    rintro e body p _ _ ⟨hahead, rfl, rfl⟩ hcell
    simp only [step, hahead, hcell]
  loopDone := by
    rintro e body p _ _ ⟨hahead, rfl, rfl⟩ hcell
    refine ⟨⟨e.cursor.next, e.frames, e.machine⟩, ?_, ahead_next hahead, rfl, rfl⟩
    simp only [step, hahead, hcell, ↓reduceIte]
  loopEnter := by
    rintro e body p _ value _ ⟨hahead, rfl, rfl⟩ hcell hvalue
    refine ⟨⟨.start body, e.cursor :: e.frames, e.machine⟩, returnTo (e.cursor :: e.frames),
      ?_, ⟨rfl, rfl, rfl⟩, ?_⟩
    · simp only [step, hahead, hcell, if_neg hvalue]
    · intro m'
      exact ⟨⟨e.cursor, e.frames, m'⟩, rfl, hahead, rfl, rfl⟩

theorem runFor_eq (fuel : Nat) (e : Execution) :
    e.runFor fuel = Transition.runFor step fuel (.next e) := by
  induction fuel generalizing e with
  | zero => rfl
  | succ fuel ih =>
    rw [runFor, Transition.runFor_succ_next]
    cases e.step with
    | next e' => exact ih e'
    | stop o => exact (Transition.runFor_stop fuel o).symm

theorem exists_runFor_start_iff {p : Program} {m : Machine} {o : Outcome} :
    (∃ fuel, (start p m).runFor fuel = some o) ↔ p.Yields m o := by
  simp only [runFor_eq]
  exact realizes.stopsWith_iff_yields ⟨rfl, rfl, rfl⟩

end Execution

/-- The structure of a program yields one outcome at most. -/
theorem Program.Yields.unique {p : Program} {m : Machine} {o o' : Outcome} (h : p.Yields m o)
    (h' : p.Yields m o') : o = o' := by
  have hat : Execution.StandsAt (.start p m) p m fun m' ↦ .stop (.finished m') :=
    ⟨rfl, rfl, rfl⟩
  have hstops := (Execution.realizes.stopsWith_iff_yields hat).mpr h
  have hstops' := (Execution.realizes.stopsWith_iff_yields hat).mpr h'
  exact hstops.unique hstops'

/-- A run flushes what the structure of its program yields. -/
theorem exists_execute_iff {p : Program} {m : Machine} {r : Outcome} :
    (∃ fuel, execute fuel p m = some r) ↔ ∃ o, p.Yields m o ∧ o.map Machine.flush = r := by
  simp only [execute, Option.map_eq_some_iff, ← Execution.exists_runFor_start_iff]
  constructor
  · rintro ⟨fuel, o, hrun, hr⟩
    exact ⟨o, ⟨fuel, hrun⟩, hr⟩
  · rintro ⟨o, ⟨fuel, hrun⟩, hr⟩
    exact ⟨fuel, o, hrun, hr⟩

namespace Program

/-- The program, run on the machine, stops in this way. -/
def EndsWith (p : Program) (m : Machine) (ending : Ending) : Prop :=
  ∃ fuel o, execute fuel p m = some o ∧ o.ending = ending

/-- No number of steps is enough for the program. -/
def RunsForever (p : Program) (m : Machine) : Prop :=
  ∀ fuel, execute fuel p m = none

theorem endsWith_iff {p : Program} {m : Machine} {ending : Ending} :
    p.EndsWith m ending ↔ ∃ o, p.Yields m o ∧ o.ending = ending := by
  unfold EndsWith
  rw [exists_comm]
  constructor
  · rintro ⟨r, fuel, hrun, rfl⟩
    obtain ⟨o, hyields, rfl⟩ := exists_execute_iff.mp ⟨fuel, hrun⟩
    exact ⟨o, hyields, o.ending_map_flush.symm⟩
  · rintro ⟨o, hyields, rfl⟩
    obtain ⟨fuel, hrun⟩ := exists_execute_iff.mpr ⟨o, hyields, rfl⟩
    exact ⟨_, fuel, hrun, o.ending_map_flush⟩

theorem EndsWith.unique {p : Program} {m : Machine} {ending ending' : Ending}
    (h : p.EndsWith m ending) (h' : p.EndsWith m ending') : ending = ending' := by
  obtain ⟨o, hyields, rfl⟩ := endsWith_iff.mp h
  obtain ⟨o', hyields', rfl⟩ := endsWith_iff.mp h'
  rw [hyields.unique hyields']

theorem runsForever_iff {p : Program} {m : Machine} :
    p.RunsForever m ↔ ∀ o, ¬ p.Yields m o := by
  constructor
  · intro hforever o hyields
    obtain ⟨fuel, hrun⟩ := exists_execute_iff.mpr ⟨o, hyields, rfl⟩
    simp [hforever fuel] at hrun
  · intro hnone fuel
    cases hrun : execute fuel p m with
    | none => rfl
    | some r =>
      obtain ⟨o, hyields, -⟩ := exists_execute_iff.mp ⟨fuel, hrun⟩
      exact (hnone o hyields).elim

end Program

/-- From every machine, whatever its tape, its pointer and its input, a run of a program
ends in the ways that the structure of the program yields and in no other, and it goes on
for ever exactly if the structure yields nothing. -/
theorem execute_iff_structure (p : Program) (m : Machine) :
    (∀ ending, p.EndsWith m ending ↔ ∃ o, p.Yields m o ∧ o.ending = ending) ∧
      (p.RunsForever m ↔ ∀ o, ¬ p.Yields m o) :=
  ⟨fun _ ↦ Program.endsWith_iff, Program.runsForever_iff⟩

end Brainfuck
