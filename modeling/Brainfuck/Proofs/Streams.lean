import Brainfuck.Proofs.ConsumedInput
import Brainfuck.Proofs.OnTape

/-!
The streams of a run and the steps that it has taken. A run may come to one state more than
once, so what it has done so far is not to be seen in the state; it is the list of the steps
that led there (`Execution.History`). The list accounts for both streams
(`Machine.Accounts`): the output has grown by the cell that each write found under the pointer,
and the input has lost the byte that each read left there, in the order of the steps. One step
accounts for what it does (`Execution.accounts_of_step`), and accounts add up along a run
(`Execution.History.accounts`), whether it goes on for ever, comes to its end or fails.
-/

set_option autoImplicit false
set_option relaxedAutoImplicit false

namespace Brainfuck

/-! ### What commands do to the streams -/

namespace Machine.Effect

variable {m m' : Machine} {c : Command} {o : Outcome}

/-- Only writing adds to the output. -/
theorem output_eq (h : m.Effect c o) (hc : c ≠ .write) : o.machine.output = m.output := by
  cases h with
  | write => exact absurd rfl hc
  | writeNoCell => exact absurd rfl hc
  | _ => rfl

/-- Only reading takes from the input. -/
theorem input_eq (h : m.Effect c o) (hc : c ≠ .read) : o.machine.input = m.input := by
  cases h with
  | read => exact absurd rfl hc
  | readNoCell => exact absurd rfl hc
  | readNothing => exact absurd rfl hc
  | _ => rfl

theorem exists_written (h : m.Effect .write (.finished m')) :
    ∃ value, m.cell? = some value ∧ m'.output = m.output.push value := by
  cases h with
  | move hc => cases hc
  | add hc => cases hc
  | write hcell => exact ⟨_, hcell, rfl⟩

theorem exists_stored (h : m.Effect .read (.finished m')) :
    ∃ byte, m'.cell? = some byte ∧ m.input = byte :: m'.input := by
  cases h with
  | move hc => cases hc
  | add hc => cases hc
  | read hinput hslot => exact ⟨_, cell?_setCell hslot _, hinput⟩

end Machine.Effect

namespace Execution

variable {e e' : Execution}

theorem machine_step_elsewhere (hcommand : e.command? = none) : e.step.machine = e.machine := by
  rcases step_elsewhere hcommand with ⟨e', hnext⟩ | hdone | ⟨hcell, hnone⟩
  · exact congrArg Transition.machine (hnext e.machine rfl)
  · exact congrArg Transition.machine (hdone e.machine)
  · exact congrArg Transition.machine (hnone e.machine hcell)

theorem machine_step_of_command {c : Command} (hcommand : e.command? = some c) :
    e.step.machine = (e.machine.apply c).machine := by
  rw [step_of_command hcommand, machine_advance]

/-- A step that is not a write leaves the output alone, be it another command, the test of a loop
or the way out of a body. -/
theorem output_step_eq (hwrite : e.command? ≠ some .write) :
    e.step.machine.output = e.machine.output := by
  cases hcommand : e.command? with
  | none => rw [machine_step_elsewhere hcommand]
  | some c =>
    rw [machine_step_of_command hcommand]
    refine (e.machine.effect_apply c).output_eq ?_
    rintro rfl
    exact hwrite hcommand

/-- A step that is not a read leaves the input alone. -/
theorem input_step_eq (hread : e.command? ≠ some .read) :
    e.step.machine.input = e.machine.input := by
  cases hcommand : e.command? with
  | none => rw [machine_step_elsewhere hcommand]
  | some c =>
    rw [machine_step_of_command hcommand]
    refine (e.machine.effect_apply c).input_eq ?_
    rintro rfl
    exact hread hcommand

theorem apply_of_step_eq_next {c : Command} (hcommand : e.command? = some c)
    (hstep : e.step = .next e') : e.machine.apply c = .finished e'.machine := by
  rcases step_eq_next hstep with ⟨hnone, -⟩ | ⟨c', hcommand', happly⟩
  · exact absurd (hnone.symm.trans hcommand) (by simp)
  · obtain rfl : c' = c := Option.some.inj (hcommand'.symm.trans hcommand)
    exact happly

/-- A read on the tape fails for want of input and for nothing else. -/
theorem read_fails_iff {size : Nat} (he : e.machine.OnTape size)
    (hread : e.command? = some .read) :
    (∃ fault m, e.step = .stop (.failed fault m)) ↔ e.machine.input = [] := by
  rw [step_of_command hread]
  change (∃ fault m, e.advance e.machine.read = .stop (.failed fault m)) ↔ _
  rcases he.read_cases with ⟨m', hfinished, -⟩ | ⟨hinput, hfailed⟩
  · rw [hfinished]
    constructor
    · rintro ⟨fault, m, hstop⟩
      cases hstop
    · intro hinput
      simp [Machine.read, hinput] at hfinished
  · rw [hfailed]
    exact iff_of_true ⟨_, _, rfl⟩ hinput

end Execution

/-! ### Accounts -/

/-- A step that a run has taken. -/
structure TakenStep where
  before : Execution
  after : Execution

namespace TakenStep

/-- Whether the step carried out this command. -/
def performs (c : Command) (s : TakenStep) : Bool :=
  s.before.command? = some c

/-- The cells that the writes among the steps have found under the pointer. -/
def written (steps : List TakenStep) : List (Option UInt8) :=
  (steps.filter (performs .write)).map fun s ↦ s.before.machine.cell?

/-- The cells that the reads among the steps have left under the pointer. -/
def stored (steps : List TakenStep) : List (Option UInt8) :=
  (steps.filter (performs .read)).map fun s ↦ s.after.machine.cell?

theorem written_append (steps more : List TakenStep) :
    written (steps ++ more) = written steps ++ written more := by
  simp only [written, List.filter_append, List.map_append]

theorem stored_append (steps more : List TakenStep) :
    stored (steps ++ more) = stored steps ++ stored more := by
  simp only [stored, List.filter_append, List.map_append]

end TakenStep

/-- The steps account for what has become of the streams: there is a byte in the output for each
write, and each byte that is gone from the input was stored by a read. -/
structure Machine.Accounts (m : Machine) (steps : List TakenStep) (m' : Machine) : Prop where
  output : ∃ bytes, m'.output.toList = m.output.toList ++ bytes ∧
    bytes.map some = TakenStep.written steps
  input : ∃ bytes, m.input = bytes ++ m'.input ∧ bytes.map some = TakenStep.stored steps

theorem Machine.Accounts.refl (m : Machine) : m.Accounts [] m where
  output := ⟨[], (List.append_nil _).symm, rfl⟩
  input := ⟨[], rfl, rfl⟩

theorem Machine.Accounts.trans {m m' m'' : Machine} {steps more : List TakenStep}
    (h : m.Accounts steps m') (h' : m'.Accounts more m'') : m.Accounts (steps ++ more) m'' where
  output := by
    obtain ⟨bytes, houtput, hbytes⟩ := h.output
    obtain ⟨bytes', houtput', hbytes'⟩ := h'.output
    refine ⟨bytes ++ bytes', ?_, ?_⟩
    · rw [houtput', houtput, List.append_assoc]
    · rw [List.map_append, hbytes, hbytes', TakenStep.written_append]
  input := by
    obtain ⟨bytes, hinput, hbytes⟩ := h.input
    obtain ⟨bytes', hinput', hbytes'⟩ := h'.input
    refine ⟨bytes ++ bytes', ?_, ?_⟩
    · rw [hinput, hinput', List.append_assoc]
    · rw [List.map_append, hbytes, hbytes', TakenStep.stored_append]

namespace Execution

/-- What a single step does to the streams. -/
theorem accounts_of_step {e e' : Execution} (hstep : e.step = .next e') :
    e.machine.Accounts [⟨e, e'⟩] e'.machine where
  output := by
    by_cases hwrite : e.command? = some .write
    · have happly := apply_of_step_eq_next hwrite hstep
      obtain ⟨value, hcell, houtput⟩ := (Machine.apply_eq_iff.mp happly).exists_written
      refine ⟨[value], by rw [houtput, Array.toList_push], ?_⟩
      simp [TakenStep.written, TakenStep.performs, hwrite, hcell]
    · have hsame := output_step_eq hwrite
      rw [hstep] at hsame
      refine ⟨[], ?_, ?_⟩
      · rw [List.append_nil]
        exact congrArg Array.toList hsame
      · simp [TakenStep.written, TakenStep.performs, hwrite]
  input := by
    by_cases hread : e.command? = some .read
    · have happly := apply_of_step_eq_next hread hstep
      obtain ⟨byte, hcell, hinput⟩ := (Machine.apply_eq_iff.mp happly).exists_stored
      refine ⟨[byte], hinput, ?_⟩
      simp [TakenStep.stored, TakenStep.performs, hread, hcell]
    · have hsame := input_step_eq hread
      rw [hstep] at hsame
      refine ⟨[], hsame.symm, ?_⟩
      simp [TakenStep.stored, TakenStep.performs, hread]

/-- The steps that lead from one state of a run to another. -/
inductive History (e : Execution) : List TakenStep → Execution → Prop
  | start : History e [] e
  | step {steps : List TakenStep} {e' e'' : Execution} (hbefore : History e steps e')
      (hstep : e'.step = .next e'') : History e (steps ++ [⟨e', e''⟩]) e''

theorem reaches_iff_exists_history {e e' : Execution} :
    e.Reaches e' ↔ ∃ steps, e.History steps e' := by
  constructor
  · intro hreaches
    induction hreaches with
    | refl => exact ⟨[], .start⟩
    | tail _ hstep ih =>
      obtain ⟨steps, hbefore⟩ := ih
      exact ⟨_, hbefore.step hstep⟩
  · rintro ⟨steps, hhistory⟩
    induction hhistory with
    | start => exact .refl
    | step _ hstep ih => exact .tail ih hstep

/-- The steps of a run account for its streams, at every state that it comes to. -/
theorem History.accounts {e e' : Execution} {steps : List TakenStep} (h : e.History steps e') :
    e.machine.Accounts steps e'.machine := by
  induction h with
  | start => exact .refl e.machine
  | step _ hstep ih => exact ih.trans (accounts_of_step hstep)

end Execution

/-- What a run leaves in the streams is what they hold at the last state of its history. -/
theorem exists_history_of_execute {m : Machine} {size : Nat} (hm : m.OnTape size) {fuel : Nat}
    {p : Program} {o : Outcome} (hexecute : execute fuel p m = some o) :
    ∃ steps last r, (Execution.start p m).History steps last ∧ last.step = .stop r ∧
      r.fault? = o.fault? ∧ o.machine.output = last.machine.output ∧
      o.machine.input = last.machine.input := by
  obtain ⟨last, r, hreaches, hstop, rfl⟩ := exists_execute_iff_reaches.mp ⟨fuel, hexecute⟩
  obtain ⟨steps, hhistory⟩ := Execution.reaches_iff_exists_history.mp hreaches
  have hlast : r.machine = last.machine := by
    rcases Execution.stop_cases (Execution.onTape_of_reaches hreaches hm) hstop with
      rfl | ⟨c, fault, -, -, -, rfl⟩
    · rfl
    · rfl
  have hending := r.ending_map_flush
  refine ⟨steps, last, r, hhistory, hstop, (congrArg Ending.fault? hending).symm, ?_, ?_⟩
  · exact (congrArg Ending.output hending).trans (congrArg Machine.output hlast)
  · exact (congrArg Ending.input hending).trans (congrArg Machine.input hlast)

/-- Every state of a run has a history, and from a machine whose pointer is on its tape each
history accounts for the streams. The output is what it was at first and behind that a byte for
each write, the cell under the pointer when it was carried out. The input at first was the
bytes that the reads have stored, and behind them what is unread now. A read fails exactly if
nothing is unread, a step that is no write leaves the output alone and one that is no read the
input, and a run that stops leaves both as they are then. -/
theorem streams_follow_history {m : Machine} {size : Nat} (hm : m.OnTape size) (p : Program) :
    (∀ e, (Execution.start p m).Reaches e ↔ ∃ steps, (Execution.start p m).History steps e) ∧
      (∀ steps e, (Execution.start p m).History steps e →
        (∃ bytes, e.machine.output.toList = m.output.toList ++ bytes ∧
          bytes.map some = TakenStep.written steps) ∧
        (∃ bytes, m.input = bytes ++ e.machine.input ∧
          bytes.map some = TakenStep.stored steps) ∧
        (e.command? = some .read →
          ((∃ fault m', e.step = .stop (.failed fault m')) ↔ e.machine.input = [])) ∧
        (e.command? ≠ some .write → e.step.machine.output = e.machine.output) ∧
        (e.command? ≠ some .read → e.step.machine.input = e.machine.input)) ∧
      ∀ fuel o, execute fuel p m = some o →
        ∃ steps last r, (Execution.start p m).History steps last ∧ last.step = .stop r ∧
          r.fault? = o.fault? ∧ o.machine.output = last.machine.output ∧
          o.machine.input = last.machine.input := by
  refine ⟨fun e ↦ Execution.reaches_iff_exists_history, fun steps e hhistory ↦ ?_, ?_⟩
  · have hreaches := Execution.reaches_iff_exists_history.mpr ⟨steps, hhistory⟩
    have he := Execution.onTape_of_reaches hreaches hm
    exact ⟨hhistory.accounts.output, hhistory.accounts.input, Execution.read_fails_iff he,
      Execution.output_step_eq, Execution.input_step_eq⟩
  · intro fuel o hexecute
    exact exists_history_of_execute hm hexecute

/-- A loop that writes and reads in turn, until its second read finds nothing. -/
theorem streams_follow_history_starved :
    (⟨#[5], 0, [7], #[], [], true⟩ : Machine).OnTape 1 ∧
      execute 7 [.loop [.command .write, .command .read]] ⟨#[5], 0, [7], #[], [], true⟩ =
        some (.failed .inputExhausted ⟨#[7], 0, [], #[5, 7], [2], true⟩) ∧
      ∃ steps last, (Execution.start [.loop [.command .write, .command .read]]
          ⟨#[5], 0, [7], #[], [], true⟩).History steps last ∧
        TakenStep.written steps = [some 5, some 7] ∧ TakenStep.stored steps = [some 7] := by
  have hm : (⟨#[5], 0, [7], #[], [], true⟩ : Machine).OnTape 1 := ⟨rfl, by decide, by decide⟩
  have hexecute : execute 7 [.loop [.command .write, .command .read]]
      ⟨#[5], 0, [7], #[], [], true⟩ =
        some (.failed .inputExhausted ⟨#[7], 0, [], #[5, 7], [2], true⟩) := rfl
  obtain ⟨-, haccounts, hlast⟩ :=
    streams_follow_history hm [.loop [.command .write, .command .read]]
  obtain ⟨steps, last, r, hhistory, -, -, houtput, hinput⟩ := hlast 7 _ hexecute
  obtain ⟨⟨bytes, hwritten, hbytes⟩, ⟨bytes', hstored, hbytes'⟩, -⟩ :=
    haccounts steps last hhistory
  rw [← houtput] at hwritten
  rw [← hinput] at hstored
  have hall : [5, 7] = bytes := hwritten
  have hgone : [7] = bytes' := hstored.trans (List.append_nil bytes')
  exact ⟨hm, hexecute, steps, last, hhistory, by rw [← hbytes, ← hall]; rfl,
    by rw [← hbytes', ← hgone]; rfl⟩

end Brainfuck
