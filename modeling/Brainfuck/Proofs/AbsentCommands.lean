import Brainfuck.Proofs.Lockstep
import Brainfuck.Proofs.SourceRun
import Brainfuck.Proofs.Spelling
import Brainfuck.Proofs.Streams

/-!
What a program leaves alone because it lacks the commands for it. A run holds bodies of loops in
its frames, but what lies ahead of the cursor and of the frames are pieces of the program, so a
run never carries out a command that the program does not have, at whatever depth
(`Execution.DrawsOn`). What each command of a program keeps is kept by every step of its run,
and therefore by every machine that the run visits (`Program.Visits.invariant`).

Each command has little to do with most of the machine: only reading looks at the input, only
writing adds to the output, only a move changes the pointer, and of the tape no command changes
more than the cell under the pointer. So for each part of the machine it can be said which
commands it takes to change it (`absent_commands_leave_alone`). A program that does not read
cannot tell its input from another one, and runs in lockstep with itself on the other
(`Execution.lockstep_withInput`).
-/

set_option autoImplicit false
set_option relaxedAutoImplicit false

namespace Brainfuck

/-! ### The commands of a program -/

namespace Program

variable {p body : Program} {c c' : Command}

/-- The command stands somewhere in the program, in the bodies of loops or outside of them. -/
def Has (p : Program) (c : Command) : Prop := .command c ∈ p.opcodes

instance (p : Program) (c : Command) : Decidable (p.Has c) :=
  inferInstanceAs (Decidable (_ ∈ _))

@[simp] theorem has_command_cons : Has (.command c' :: p) c ↔ c = c' ∨ p.Has c := by
  simp [Has]

@[simp] theorem has_loop_cons : Has (.loop body :: p) c ↔ body.Has c ∨ p.Has c := by
  simp [Has]

theorem Has.ne (h : p.Has c) (habsent : ¬ p.Has c') : c ≠ c' := by
  rintro rfl
  exact habsent h

theorem Has.behind {i : Instruction} (h : p.Has c) : Has (i :: p) c := by
  cases i with
  | command c' => exact has_command_cons.mpr (.inr h)
  | loop body => exact has_loop_cons.mpr (.inr h)

end Program

namespace Execution

variable {e e' : Execution} {p : Program}

/-- The program has every command that lies ahead of the run: ahead of its cursor, or ahead of a
frame, where it will come back to. -/
def DrawsOn (e : Execution) (p : Program) : Prop :=
  ∀ cursor ∈ e.cursor :: e.frames, ∀ c, cursor.ahead.Has c → p.Has c

theorem drawsOn_start (p : Program) (m : Machine) : (start p m).DrawsOn p := by
  intro cursor hcursor c hc
  obtain rfl : cursor = .start p := List.mem_singleton.mp hcursor
  exact hc

theorem DrawsOn.has_of_command? (h : e.DrawsOn p) {c : Command} (hcommand : e.command? = some c) :
    p.Has c := by
  refine h e.cursor List.mem_cons_self c ?_
  unfold command? at hcommand
  split at hcommand
  · next c' rest hahead =>
    obtain rfl : c' = c := Option.some.inj hcommand
    rw [hahead]
    exact Program.has_command_cons.mpr (.inl rfl)
  · cases hcommand

/-- A step comes to nothing that did not lie ahead before. -/
theorem DrawsOn.step (h : e.DrawsOn p) (hstep : e.step = .next e') : e'.DrawsOn p := by
  have hframes (cursor : Cursor) (hcursor : cursor ∈ e.frames) :=
    h cursor (List.mem_cons_of_mem e.cursor hcursor)
  intro cursor hcursor c hc
  rcases place_of_step hstep with
    ⟨-, hleft⟩ | ⟨i, rest, hahead, hnext, hsame⟩ | ⟨body, rest, hahead, hbody, hframe⟩
  · rw [← hleft] at hcursor
    exact hframes cursor hcursor c hc
  · rw [hnext, hsame] at hcursor
    rcases List.mem_cons.mp hcursor with rfl | hcursor
    · refine h e.cursor List.mem_cons_self c ?_
      rw [ahead_next hahead] at hc
      rw [hahead]
      exact hc.behind
    · exact hframes cursor hcursor c hc
  · rw [hbody, hframe] at hcursor
    rcases List.mem_cons.mp hcursor with rfl | hcursor
    · refine h e.cursor List.mem_cons_self c ?_
      rw [hahead]
      exact Program.has_loop_cons.mpr (.inl hc)
    · exact h cursor hcursor c hc

/-- A run carries out commands of its program only. -/
theorem drawsOn_of_reaches {m : Machine} (hreaches : (start p m).Reaches e) : e.DrawsOn p :=
  hreaches.invariant (P := fun e ↦ e.DrawsOn p) DrawsOn.step (drawsOn_start p m)

/-- What the commands of a program keep, a step of its run keeps. -/
theorem DrawsOn.machine_step {P : Machine → Prop} (h : e.DrawsOn p)
    (happly : ∀ c, p.Has c → ∀ m, P m → P (m.apply c).machine) (he : P e.machine) :
    P e.step.machine := by
  cases hcommand : e.command? with
  | none =>
    rw [machine_step_elsewhere hcommand]
    exact he
  | some c =>
    rw [machine_step_of_command hcommand]
    exact happly c (h.has_of_command? hcommand) e.machine he

end Execution

namespace Program

variable {p : Program} {m m' : Machine}

/-- The machines of a run: those at its states, and the one that it leaves when it stops. -/
inductive Visits (p : Program) (m : Machine) : Machine → Prop
  | running {e : Execution} (hreaches : (Execution.start p m).Reaches e) : Visits p m e.machine
  | stopped {fuel : Nat} {o : Outcome} (hexecute : execute fuel p m = some o) :
      Visits p m o.machine

/-- What the commands of a program keep, and a flush too, the whole run keeps. -/
theorem Visits.invariant {P : Machine → Prop} (hvisits : p.Visits m m')
    (happly : ∀ c, p.Has c → ∀ m, P m → P (m.apply c).machine) (hflush : ∀ m, P m → P m.flush)
    (hm : P m) : P m' := by
  have hstates {e : Execution} (hreaches : (Execution.start p m).Reaches e) :
      e.DrawsOn p ∧ P e.machine := by
    refine hreaches.invariant (P := fun e ↦ e.DrawsOn p ∧ P e.machine) ?_
      ⟨Execution.drawsOn_start p m, hm⟩
    intro e₁ e₂ he₁ hstep
    have hkept := he₁.1.machine_step happly he₁.2
    rw [hstep] at hkept
    exact ⟨he₁.1.step hstep, hkept⟩
  cases hvisits with
  | running hreaches => exact (hstates hreaches).2
  | @stopped fuel o hexecute =>
    obtain ⟨last, r, hreaches, hstop, rfl⟩ := exists_execute_iff_reaches.mp ⟨fuel, hexecute⟩
    have hlast := hstates hreaches
    have hkept := hlast.1.machine_step happly hlast.2
    rw [hstop] at hkept
    rw [Outcome.machine_map]
    exact hflush _ hkept

/-- A run that fails has come to a command of its program that is blocked. -/
theorem EndsWith.exists_blocked {ending : Ending} {size : Nat} {fault : Fault}
    (hends : p.EndsWith m ending) (hm : m.OnTape size) (hfault : ending.fault? = some fault) :
    ∃ c, p.Has c ∧ ∃ m' : Machine, m'.Blocked size c fault := by
  obtain ⟨fuel, o, hexecute, rfl⟩ := hends
  cases o with
  | finished m' => cases hfault
  | failed fault' m' =>
    obtain rfl : fault' = fault := Option.some.inj hfault
    obtain ⟨last, c, hreaches, hcommand, -, hblocked, -⟩ :=
      exists_last_of_execute_failed hm hexecute
    exact ⟨c, (Execution.drawsOn_of_reaches hreaches).has_of_command? hcommand, _, hblocked⟩

end Program

/-! ### What commands leave alone -/

namespace Machine.Effect

variable {m : Machine} {c : Command} {o : Outcome} {size : Nat}

/-- Only a move to the left decreases the pointer. -/
theorem le_pointer (h : m.Effect c o) (hc : c ≠ .moveLeft) : m.pointer ≤ o.machine.pointer := by
  cases h with
  | move hoffset =>
    rcases Command.offset?_cases hoffset with ⟨-, rfl⟩ | ⟨rfl, -⟩
    · change m.pointer ≤ m.pointer + 1
      omega
    · exact absurd rfl hc
  | _ => exact Int.le_refl m.pointer

/-- Only a move to the right increases the pointer. -/
theorem pointer_le (h : m.Effect c o) (hc : c ≠ .moveRight) : o.machine.pointer ≤ m.pointer := by
  cases h with
  | move hoffset =>
    rcases Command.offset?_cases hoffset with ⟨rfl, -⟩ | ⟨-, rfl⟩
    · exact absurd rfl hc
    · change m.pointer + -1 ≤ m.pointer
      omega
  | _ => exact Int.le_refl m.pointer

/-- No command changes a cell that is not under the pointer. -/
theorem getElem?_tape (h : m.Effect c o) (hm : m.OnTape size) {j : Nat}
    (hj : (j : Int) ≠ m.pointer) : o.machine.tape[j]? = m.tape[j]? := by
  have hother {i : Fin m.tape.size} (hslot : slot? m.tape.size m.pointer = some i) :
      i.val ≠ j := by
    have hval := hm.val_slot hslot
    have hnonneg := hm.pointer_nonneg
    omega
  cases h with
  | add _ hslot => exact Array.getElem?_set_ne (Fin.isLt _) (hother hslot)
  | read _ hslot => exact Array.getElem?_set_ne (Fin.isLt _) (hother hslot)
  | _ => rfl

/-- Only adding and reading change the tape. -/
theorem tape_eq (h : m.Effect c o) (hincrement : c ≠ .increment) (hdecrement : c ≠ .decrement)
    (hread : c ≠ .read) : o.machine.tape = m.tape := by
  cases h with
  | add hdelta =>
    rcases Command.delta?_cases hdelta with ⟨rfl, -⟩ | ⟨rfl, -⟩
    · exact absurd rfl hincrement
    · exact absurd rfl hdecrement
  | read => exact absurd rfl hread
  | _ => rfl

/-- Only reading looks at the input. -/
theorem withInput (h : m.Effect c o) (hc : c ≠ .read) (input : List UInt8) :
    (m.withInput input).Effect c (o.map (·.withInput input)) := by
  cases h with
  | move hoffset htarget => exact .move hoffset htarget
  | moveOver hoffset htarget => exact .moveOver hoffset htarget
  | add hdelta hslot hcell => exact .add hdelta hslot hcell
  | addNoCell hdelta hslot => exact .addNoCell hdelta hslot
  | write hcell => exact .write hcell
  | writeNoCell hcell => exact .writeNoCell hcell
  | _ => exact absurd rfl hc

end Machine.Effect

/-! ### Other inputs -/

namespace Execution

variable {p : Program} {m : Machine} {size : Nat}

theorem lockstep_withInput (hread : ¬ p.Has .read) (input : List UInt8) (size : Nat) :
    Lockstep id (·.withInput input) fun e ↦ e.machine.OnTape size ∧ e.DrawsOn p where
  next he hstep := ⟨onTape_of_step he.1 hstep, he.2.step hstep⟩
  cell he := by
    obtain ⟨value, hvalue⟩ := he.1.exists_cell
    exact ⟨value, hvalue, hvalue⟩
  apply {e c} he hcommand := by
    have hc : c ≠ .read := (he.2.has_of_command? hcommand).ne hread
    rw [Outcome.translate_id]
    exact ((e.machine.effect_apply c).withInput hc input).apply_eq

/-- The states of a run that does not read are those of the run on another input, with that input
unread. -/
theorem reaches_withInput (hm : m.OnTape size) (hread : ¬ p.Has .read) (input : List UInt8)
    {e : Execution} (hreaches : (start p m).Reaches e) :
    (start p (m.withInput input)).Reaches (e.withInput input) :=
  (lockstep_withInput hread input size).reaches ⟨hm, drawsOn_start p m⟩ hreaches

end Execution

theorem execute_withInput {p : Program} {m : Machine} {size : Nat} (hm : m.OnTape size)
    (hread : ¬ p.Has .read) (input : List UInt8) (fuel : Nat) :
    execute fuel p (m.withInput input) = (execute fuel p m).map (·.map (·.withInput input)) := by
  have hflush (m : Machine) : (m.withInput input).flush = m.flush.withInput input := by
    by_cases hflushable : m.flushable = true
    · simp [Machine.flush, Machine.withInput, hflushable]
    · simp [Machine.flush, Machine.withInput, hflushable]
  exact (Execution.lockstep_withInput hread input size).execute_eq_map hflush fuel
    ⟨hm, Execution.drawsOn_start p m⟩

/-! ### What runs leave alone -/

namespace Program

variable {p : Program} {m m' : Machine} {size : Nat}

theorem Visits.input_eq (h : p.Visits m m') (hread : ¬ p.Has .read) : m'.input = m.input := by
  refine h.invariant (P := fun m' ↦ m'.input = m.input) ?_ ?_ rfl
  · intro c hc m₁ hm₁
    exact ((m₁.effect_apply c).input_eq (hc.ne hread)).trans hm₁
  · intro m₁ hm₁
    exact m₁.input_flush.trans hm₁

theorem Visits.output_eq (h : p.Visits m m') (hwrite : ¬ p.Has .write) :
    m'.output = m.output := by
  refine h.invariant (P := fun m' ↦ m'.output = m.output) ?_ ?_ rfl
  · intro c hc m₁ hm₁
    exact ((m₁.effect_apply c).output_eq (hc.ne hwrite)).trans hm₁
  · intro m₁ hm₁
    exact m₁.output_flush.trans hm₁

theorem Visits.le_pointer (h : p.Visits m m') (hleft : ¬ p.Has .moveLeft) :
    m.pointer ≤ m'.pointer := by
  refine h.invariant (P := fun m' ↦ m.pointer ≤ m'.pointer) ?_ ?_ (Int.le_refl _)
  · intro c hc m₁ hm₁
    exact Int.le_trans hm₁ ((m₁.effect_apply c).le_pointer (hc.ne hleft))
  · intro m₁ hm₁
    rw [m₁.pointer_flush]
    exact hm₁

theorem Visits.pointer_le (h : p.Visits m m') (hright : ¬ p.Has .moveRight) :
    m'.pointer ≤ m.pointer := by
  refine h.invariant (P := fun m' ↦ m'.pointer ≤ m.pointer) ?_ ?_ (Int.le_refl _)
  · intro c hc m₁ hm₁
    exact Int.le_trans ((m₁.effect_apply c).pointer_le (hc.ne hright)) hm₁
  · intro m₁ hm₁
    rw [m₁.pointer_flush]
    exact hm₁

theorem Visits.getElem?_tape (h : p.Visits m m') (hm : m.OnTape size)
    (hleft : ¬ p.Has .moveLeft) (hright : ¬ p.Has .moveRight) {j : Nat}
    (hj : (j : Int) ≠ m.pointer) : m'.tape[j]? = m.tape[j]? := by
  -- The cell is not under the pointer of any machine of the run, since the pointer stays.
  refine (h.invariant (P := fun m' ↦ (m'.OnTape size ∧ m'.pointer = m.pointer) ∧
    m'.tape[j]? = m.tape[j]?) ?_ ?_ ⟨⟨hm, rfl⟩, rfl⟩).2
  · intro c hc m₁ hm₁
    obtain ⟨⟨honTape, hpointer⟩, htape⟩ := hm₁
    have heffect := m₁.effect_apply c
    have hle := heffect.le_pointer (hc.ne hleft)
    have hge := heffect.pointer_le (hc.ne hright)
    rw [← hpointer] at hj
    refine ⟨⟨?_, by omega⟩, (heffect.getElem?_tape honTape hj).trans htape⟩
    rcases honTape.apply_cases c with ⟨m₂, hfinished, hm₂⟩ | ⟨fault, hfailed, -⟩
    · rw [hfinished]
      exact hm₂
    · rw [hfailed]
      exact honTape
  · intro m₁ hm₁
    rw [m₁.pointer_flush, m₁.tape_flush]
    exact ⟨⟨hm₁.1.1.flush, hm₁.1.2⟩, hm₁.2⟩

theorem Visits.tape_eq (h : p.Visits m m') (hincrement : ¬ p.Has .increment)
    (hdecrement : ¬ p.Has .decrement) (hread : ¬ p.Has .read) : m'.tape = m.tape := by
  refine h.invariant (P := fun m' ↦ m'.tape = m.tape) ?_ ?_ rfl
  · intro c hc m₁ hm₁
    have heffect := m₁.effect_apply c
    exact (heffect.tape_eq (hc.ne hincrement) (hc.ne hdecrement) (hc.ne hread)).trans hm₁
  · intro m₁ hm₁
    exact m₁.tape_flush.trans hm₁

end Program

namespace Execution

variable {e : Execution} {p : Program} {m : Machine} {size : Nat}

theorem DrawsOn.le_pointer_step (h : e.DrawsOn p) (hleft : ¬ p.Has .moveLeft) :
    e.machine.pointer ≤ e.step.machine.pointer := by
  refine h.machine_step (P := fun m ↦ e.machine.pointer ≤ m.pointer) ?_ (Int.le_refl _)
  intro c hc m₁ hm₁
  exact Int.le_trans hm₁ ((m₁.effect_apply c).le_pointer (hc.ne hleft))

theorem DrawsOn.pointer_step_le (h : e.DrawsOn p) (hright : ¬ p.Has .moveRight) :
    e.step.machine.pointer ≤ e.machine.pointer := by
  refine h.machine_step (P := fun m ↦ m.pointer ≤ e.machine.pointer) ?_ (Int.le_refl _)
  intro c hc m₁ hm₁
  exact Int.le_trans ((m₁.effect_apply c).pointer_le (hc.ne hright)) hm₁

/-- On another input a run that does not read passes the same states, with that input unread. -/
theorem reaches_withInput_iff (hm : m.OnTape size) (hread : ¬ p.Has .read)
    {input : List UInt8} {e' : Execution} :
    (start p (m.withInput input)).Reaches e' ↔
      ∃ e, (start p m).Reaches e ∧ e' = e.withInput input := by
  constructor
  · intro hreaches
    have hinput : e'.machine.input = input := (Program.Visits.running hreaches).input_eq hread
    have honTape : (m.withInput input).OnTape size := hm.of_eq rfl rfl
    have hback : (start p m).Reaches (e'.withInput m.input) :=
      reaches_withInput honTape hread m.input hreaches
    refine ⟨_, hback, ?_⟩
    rw [← hinput]
    rfl
  · rintro ⟨e, hreaches, rfl⟩
    exact reaches_withInput hm hread input hreaches

end Execution

/-- A run leaves alone what its program has no command for. From a machine whose pointer is on
its tape: without reads the input stays as it is, the run never fails for want of input, and on
any other input it passes the same states and stops in the same way; without writes the
output stays; without moves to the left the pointer never decreases and never leaves the tape
at its front, and likewise to the right; without moves no cell changes but the one under the
pointer; and without additions and reads no cell changes at all. -/
theorem absent_commands_leave_alone {m : Machine} {size : Nat} (hm : m.OnTape size)
    (p : Program) :
    (¬ p.Has .read →
      (∀ m', p.Visits m m' → m'.input = m.input) ∧
      (∀ ending, p.EndsWith m ending → ending.fault? ≠ some .inputExhausted) ∧
      ∀ input,
        (∀ e', (Execution.start p (m.withInput input)).Reaches e' ↔
          ∃ e, (Execution.start p m).Reaches e ∧ e' = e.withInput input) ∧
        ∀ fuel, execute fuel p (m.withInput input) =
          (execute fuel p m).map (·.map (·.withInput input))) ∧
      (¬ p.Has .write → ∀ m', p.Visits m m' → m'.output = m.output) ∧
      (¬ p.Has .moveLeft →
        (∀ m', p.Visits m m' → m.pointer ≤ m'.pointer) ∧
        (∀ e, (Execution.start p m).Reaches e → e.machine.pointer ≤ e.step.machine.pointer) ∧
        ∀ ending, p.EndsWith m ending →
          ∀ n, ending.fault? ≠ some (.pointerOutOfBounds (-1) n)) ∧
      (¬ p.Has .moveRight →
        (∀ m', p.Visits m m' → m'.pointer ≤ m.pointer) ∧
        (∀ e, (Execution.start p m).Reaches e → e.step.machine.pointer ≤ e.machine.pointer) ∧
        ∀ ending, p.EndsWith m ending →
          ∀ n, ending.fault? ≠ some (.pointerOutOfBounds size n)) ∧
      (¬ p.Has .moveLeft → ¬ p.Has .moveRight → ∀ m', p.Visits m m' →
        ∀ j : Nat, (j : Int) ≠ m.pointer → m'.tape[j]? = m.tape[j]?) ∧
      (¬ p.Has .increment → ¬ p.Has .decrement → ¬ p.Has .read →
        ∀ m', p.Visits m m' → m'.tape = m.tape) := by
  refine ⟨fun hread ↦ ⟨?_, ?_, ?_⟩, ?_, fun hleft ↦ ⟨?_, ?_, ?_⟩, fun hright ↦ ⟨?_, ?_, ?_⟩, ?_, ?_⟩
  · intro m' hvisits
    exact hvisits.input_eq hread
  · intro ending hends hfault
    obtain ⟨c, hc, m', hblocked⟩ := hends.exists_blocked hm hfault
    cases hblocked
    exact hread hc
  · intro input
    exact ⟨fun e' ↦ Execution.reaches_withInput_iff hm hread, execute_withInput hm hread input⟩
  · intro hwrite m' hvisits
    exact hvisits.output_eq hwrite
  · intro m' hvisits
    exact hvisits.le_pointer hleft
  · intro e hreaches
    exact (Execution.drawsOn_of_reaches hreaches).le_pointer_step hleft
  · intro ending hends n hfault
    obtain ⟨c, hc, m', hblocked⟩ := hends.exists_blocked hm hfault
    cases hblocked
    exact hleft hc
  · intro m' hvisits
    exact hvisits.pointer_le hright
  · intro e hreaches
    exact (Execution.drawsOn_of_reaches hreaches).pointer_step_le hright
  · intro ending hends n hfault
    obtain ⟨c, hc, m', hblocked⟩ := hends.exists_blocked hm hfault
    cases hblocked
    exact hright hc
  · intro hleft hright m' hvisits j hj
    exact hvisits.getElem?_tape hm hleft hright hj
  · intro hincrement hdecrement hread m' hvisits
    exact hvisits.tape_eq hincrement hdecrement hread

/-- A loop that writes and counts down: it neither reads nor moves, so it ends alike on every
input, and the cell beside it is the same at every step. -/
theorem absent_commands_leave_alone_countdown :
    (⟨#[2, 7], 0, [9], #[], [], true⟩ : Machine).OnTape 2 ∧
      (∀ c ∈ [Command.read, .moveLeft, .moveRight],
        ¬ Program.Has [.loop [.command .write, .command .decrement]] c) ∧
      (∀ input, execute 10 [.loop [.command .write, .command .decrement]]
          ⟨#[2, 7], 0, input, #[], [], true⟩ =
        some (.finished ⟨#[0, 7], 0, input, #[2, 1], [2], true⟩)) ∧
      ∀ m', Program.Visits [.loop [.command .write, .command .decrement]]
          ⟨#[2, 7], 0, [9], #[], [], true⟩ m' →
        m'.tape[1]? = some 7 ∧ m'.pointer = 0 ∧ m'.input = [9] := by
  have hm : (⟨#[2, 7], 0, [9], #[], [], true⟩ : Machine).OnTape 2 := ⟨rfl, by decide, by decide⟩
  have habsent : ∀ c ∈ [Command.read, .moveLeft, .moveRight],
      ¬ Program.Has [.loop [.command .write, .command .decrement]] c := by decide
  have hread := habsent .read (by decide)
  have hleft := habsent .moveLeft (by decide)
  have hright := habsent .moveRight (by decide)
  have hexecute : execute 10 [.loop [.command .write, .command .decrement]]
      ⟨#[2, 7], 0, [9], #[], [], true⟩ =
        some (.finished ⟨#[0, 7], 0, [9], #[2, 1], [2], true⟩) := rfl
  obtain ⟨hinput, -, hforward, hback, hcells, -⟩ :=
    absent_commands_leave_alone hm [.loop [.command .write, .command .decrement]]
  refine ⟨hm, habsent, fun input ↦ ?_, fun m' hvisits ↦ ⟨?_, ?_, ?_⟩⟩
  · have hother := ((hinput hread).2.2 input).2 10
    rw [hexecute] at hother
    exact hother
  · exact hcells hleft hright m' hvisits 1 (by decide)
  · exact Int.le_antisymm ((hback hright).1 m' hvisits) ((hforward hleft).1 m' hvisits)
  · exact (hinput hread).1 m' hvisits

end Brainfuck
