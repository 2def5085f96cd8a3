import Brainfuck.Proofs.Reachable

/-!
Two runs of one program in lockstep. The second run starts from a machine that is made out
of the first one's by `onMachine`. If, as long as the first run goes on, both machines show
the same cell to a loop and every command keeps them so related, then the second run takes
the steps of the first (`Lockstep.step_eq`): it passes through the same places
(`Lockstep.reaches`) and stops after as many steps, in the same way, with the machine
and the fault translated (`Lockstep.execute_eq`).
-/

set_option autoImplicit false
set_option relaxedAutoImplicit false

namespace Brainfuck

/-- The same ending, with something done to its fault and to the machine it leaves. -/
def Outcome.translate (onFault : Fault → Fault) (onMachine : Machine → Machine) :
    Outcome → Outcome
  | .finished m => .finished (onMachine m)
  | .failed fault m => .failed (onFault fault) (onMachine m)

/-- Where faults stay as they are, only the machine is translated. -/
theorem Outcome.translate_id (onMachine : Machine → Machine) (o : Outcome) :
    o.translate id onMachine = o.map onMachine := by
  cases o <;> rfl

namespace Transition

/-- The same place in the program, with something done to the machine there, or the same end. -/
def translate (onFault : Fault → Fault) (onMachine : Machine → Machine) :
    Transition Execution → Transition Execution
  | .next e => .next (e.on (onMachine e.machine))
  | .stop o => .stop (o.translate onFault onMachine)

end Transition

/-- What it takes for a run to be followed by one with a translated machine. `Keeps` is to
hold of the states that the first run passes through. -/
structure Lockstep (onFault : Fault → Fault) (onMachine : Machine → Machine)
    (Keeps : Execution → Prop) : Prop where
  next {e e' : Execution} : Keeps e → e.step = .next e' → Keeps e'
  cell {e : Execution} : Keeps e →
    ∃ value, e.machine.cell? = some value ∧ (onMachine e.machine).cell? = some value
  apply {e : Execution} {c : Command} : Keeps e → e.command? = some c →
    (onMachine e.machine).apply c = (e.machine.apply c).translate onFault onMachine

namespace Lockstep

variable {onFault : Fault → Fault} {onMachine : Machine → Machine} {Keeps : Execution → Prop}

theorem step_eq (h : Lockstep onFault onMachine Keeps) {e : Execution} (he : Keeps e) :
    (e.on (onMachine e.machine)).step = e.step.translate onFault onMachine := by
  cases hcommand : e.command? with
  | some c =>
    have hstep : (e.on (onMachine e.machine)).step =
        (e.on (onMachine e.machine)).advance ((onMachine e.machine).apply c) :=
      Execution.step_of_command hcommand
    rw [hstep, Execution.step_of_command hcommand, h.apply he hcommand]
    cases e.machine.apply c <;> rfl
  | none =>
    obtain ⟨value, hvalue, hvalue'⟩ := h.cell he
    rcases Execution.step_elsewhere hcommand with ⟨e', hnext⟩ | hdone | ⟨hcell, -⟩
    · have hself : e.step = .next (e'.on e.machine) := hnext e.machine rfl
      rw [hself]
      exact hnext _ (hvalue'.trans hvalue.symm)
    · have hself : e.step = .stop (.finished e.machine) := hdone e.machine
      rw [hself]
      exact hdone _
    · exact absurd (hcell.symm.trans hvalue) (by simp)

/-- Where the first run comes to, the second does. -/
theorem reaches (h : Lockstep onFault onMachine Keeps) {e e' : Execution} (he : Keeps e)
    (hreaches : e.Reaches e') :
    (e.on (onMachine e.machine)).Reaches (e'.on (onMachine e'.machine)) := by
  induction hreaches with
  | refl => exact .refl
  | tail hbefore hstep ih =>
    have hkeeps := Transition.Reaches.invariant h.next hbefore he
    refine ih.tail ?_
    rw [h.step_eq hkeeps, hstep, Transition.translate]

/-- The runs stop after the same number of steps, or both go on. -/
theorem runFor_eq (h : Lockstep onFault onMachine Keeps) (fuel : Nat) {e : Execution}
    (he : Keeps e) :
    (e.on (onMachine e.machine)).runFor fuel =
      (e.runFor fuel).map (·.translate onFault onMachine) := by
  induction fuel generalizing e with
  | zero => rfl
  | succ fuel ih =>
    rw [Execution.runFor, Execution.runFor, h.step_eq he]
    cases hstep : e.step with
    | next e' => exact ih (h.next he hstep)
    | stop o => rfl

theorem execute_eq (h : Lockstep onFault onMachine Keeps)
    (hflush : ∀ m, (onMachine m).flush = onMachine m.flush) (fuel : Nat) {p : Program}
    {m : Machine} (hstart : Keeps (.start p m)) :
    execute fuel p (onMachine m) =
      (execute fuel p m).map (·.translate onFault onMachine) := by
  have hrun : (Execution.start p (onMachine m)).runFor fuel =
      ((Execution.start p m).runFor fuel).map (·.translate onFault onMachine) :=
    h.runFor_eq fuel hstart
  have hswap (o : Outcome) : (o.translate onFault onMachine).map Machine.flush =
      (o.map Machine.flush).translate onFault onMachine := by
    cases o <;> simp only [Outcome.translate, Outcome.map, hflush]
  simp only [execute, hrun, Option.map_map, Function.comp_def, hswap]

theorem execute_eq_map (h : Lockstep id onMachine Keeps)
    (hflush : ∀ m, (onMachine m).flush = onMachine m.flush) (fuel : Nat) {p : Program}
    {m : Machine} (hstart : Keeps (.start p m)) :
    execute fuel p (onMachine m) = (execute fuel p m).map (·.map onMachine) := by
  rw [h.execute_eq hflush fuel hstart]
  simp only [Outcome.translate_id]

end Lockstep

end Brainfuck
