import Brainfuck.Proofs.OnTape

/-!
What a run leaves behind when it stops. The commands that a run has carried out, in order,
account for its machine (`Execution.Performs.applyAll_eq`): nothing else changes it. A command
that fails changes nothing either and is the last one, so a run that fails leaves what the
commands before the failing one made of the machine (`failed_run_keeps_last_state`).

Steps never flush, and a run flushes once, when it has stopped. An output that has no
flush is left alone there (`unflushable_output_is_not_flushed`).
-/

set_option autoImplicit false
set_option relaxedAutoImplicit false

namespace Brainfuck

namespace Machine

/-- Carries out commands one after another, up to the first that fails. -/
def applyAll (m : Machine) : List Command → Outcome
  | [] => .finished m
  | c :: cs =>
    match m.apply c with
    | .finished m' => m'.applyAll cs
    | .failed fault m' => .failed fault m'

/-- No command flushes, or changes whether the output can be flushed. -/
theorem Effect.flushes_eq {m : Machine} {c : Command} {o : Outcome} (h : m.Effect c o) :
    o.machine.flushes = m.flushes ∧ o.machine.flushable = m.flushable := by
  cases h <;> exact ⟨rfl, rfl⟩

end Machine

namespace Execution

/-- A run passes from one state to another and carries out these commands on the way. -/
inductive Performs : Execution → List Command → Execution → Prop
  | refl (e : Execution) : Performs e [] e
  | next {e e' e'' : Execution} {cs : List Command} (hstep : e.step = .next e')
      (hrest : Performs e' cs e'') : Performs e (e.command?.toList ++ cs) e''

theorem Reaches.exists_performs {e e' : Execution} (hreaches : e.Reaches e') :
    ∃ cs, e.Performs cs e' := by
  induction hreaches using Relation.ReflTransGen.head_induction_on with
  | refl => exact ⟨[], .refl e'⟩
  | head hstep _ ih =>
    obtain ⟨cs, hrest⟩ := ih
    exact ⟨_, .next hstep hrest⟩

theorem Performs.trans {e e' e'' : Execution} {cs ds : List Command} (h : e.Performs cs e')
    (h' : e'.Performs ds e'') : e.Performs (cs ++ ds) e'' := by
  induction h with
  | refl e => exact h'
  | next hstep _ ih =>
    rw [List.append_assoc]
    exact .next hstep (ih h')

theorem Performs.reaches {e e' : Execution} {cs : List Command} (h : e.Performs cs e') :
    e.Reaches e' := by
  induction h with
  | refl e => exact .refl
  | next hstep _ ih => exact .head hstep ih

/-- The commands account for the machine. -/
theorem Performs.applyAll_eq {e e' : Execution} {cs : List Command} (h : e.Performs cs e') :
    e.machine.applyAll cs = .finished e'.machine := by
  induction h with
  | refl e => rfl
  | next hstep _ ih =>
    rcases step_eq_next hstep with ⟨hcommand, hsame⟩ | ⟨c, hcommand, happly⟩
    · rw [hcommand, ← hsame]
      exact ih
    · rw [hcommand]
      change Machine.applyAll _ (c :: _) = _
      rw [Machine.applyAll, happly]
      exact ih

/-- No step flushes. -/
theorem flushes_of_reaches {e e' : Execution} (hreaches : e.Reaches e') :
    e'.machine.flushes = e.machine.flushes ∧ e'.machine.flushable = e.machine.flushable := by
  refine hreaches.invariant (P := fun e' ↦ e'.machine.flushes = e.machine.flushes ∧
    e'.machine.flushable = e.machine.flushable) ?_ ⟨rfl, rfl⟩
  intro e₁ e₂ hflush hstep
  rcases step_eq_next hstep with ⟨-, hsame⟩ | ⟨c, -, happly⟩
  · rw [hsame]
    exact hflush
  · have hkept := (Machine.apply_eq_iff.mp happly).flushes_eq
    exact ⟨hkept.1.trans hflush.1, hkept.2.trans hflush.2⟩

end Execution

/-- Since `m` the output has been flushed once, when all was written that is written now. -/
def Machine.FlushedOnceSince (m' m : Machine) : Prop :=
  m'.flushes = m'.output.size :: m.flushes

theorem Machine.flushedOnceSince_flush {m m' : Machine} (hflushes : m'.flushes = m.flushes)
    (hflushable : m'.flushable = true) : m'.flush.FlushedOnceSince m := by
  unfold flush
  rw [if_pos hflushable, FlushedOnceSince, hflushes]

/-- Every run that stops flushes an output that can be flushed, once and at its end. -/
theorem flushes_of_execute {fuel : Nat} {p : Program} {m : Machine} {o : Outcome}
    (hexecute : execute fuel p m = some o) :
    (m.flushable = true → o.machine.FlushedOnceSince m) ∧
      (m.flushable = false → o.machine.flushes = m.flushes) := by
  obtain ⟨last, r, hreaches, hstop, rfl⟩ := exists_execute_iff_reaches.mp ⟨fuel, hexecute⟩
  have hlast := Execution.flushes_of_reaches hreaches
  have hr : r.machine.flushes = m.flushes ∧ r.machine.flushable = m.flushable := by
    rcases Execution.step_eq_stop hstop with rfl | ⟨-, rfl⟩ | ⟨c, fault, m', -, happly, rfl⟩
    · exact hlast
    · exact hlast
    · have hkept := (Machine.apply_eq_iff.mp happly).flushes_eq
      exact ⟨hkept.1.trans hlast.1, hkept.2.trans hlast.2⟩
  rw [Outcome.machine_map]
  refine ⟨fun hflushable ↦ ?_, fun hflushable ↦ ?_⟩
  · exact Machine.flushedOnceSince_flush hr.1 (hr.2.trans hflushable)
  · rw [Machine.flush, hr.2, hflushable]
    exact hr.1

/-- A run that fails, from a machine whose pointer is on a tape of any size, does so at a command
for which there is no input, or which moves the pointer one cell over the end of the tape
where it is. It leaves what the commands before that one have made of the machine, and
nothing else happens behind it. Every run that stops, failed or not, flushes an output that
can be flushed, once and after the last byte. -/
theorem failed_run_keeps_last_state {m : Machine} {size : Nat} (hm : m.OnTape size) {fuel : Nat}
    {p : Program} {o : Outcome} (hexecute : execute fuel p m = some o) :
    (∀ fault, o.fault? = some fault →
      ∃ cs last c, (Execution.start p m).Performs cs last ∧ last.command? = some c ∧
        m.applyAll cs = .finished last.machine ∧
        last.machine.apply c = .failed fault last.machine ∧
        last.step = .stop (.failed fault last.machine) ∧
        o.ending = (Outcome.failed fault last.machine).ending ∧
        (fault = .inputExhausted ∧ o.machine.input = [] ∨
          fault = .pointerOutOfBounds (-1) size ∧ o.machine.pointer = 0 ∨
          fault = .pointerOutOfBounds size size ∧ o.machine.pointer = size - 1)) ∧
      (m.flushable = true → o.machine.FlushedOnceSince m) ∧
      (m.flushable = false → o.machine.flushes = m.flushes) := by
  refine ⟨fun fault hfault ↦ ?_, flushes_of_execute hexecute⟩
  obtain ⟨last, r, hreaches, hstop, rfl⟩ := exists_execute_iff_reaches.mp ⟨fuel, hexecute⟩
  have hlast := Execution.onTape_of_reaches hreaches hm
  rcases Execution.stop_cases hlast hstop with rfl | ⟨c, fault', hcommand, happly, hblocked, rfl⟩
  · simp [Outcome.map, Outcome.fault?] at hfault
  · obtain rfl : fault' = fault := Option.some.inj hfault
    obtain ⟨cs, hperforms⟩ := Execution.Reaches.exists_performs hreaches
    have hending := Outcome.ending_map_flush (.failed fault' last.machine)
    refine ⟨cs, last, c, hperforms, hcommand, hperforms.applyAll_eq, happly, hstop, hending, ?_⟩
    have hinput : ((Outcome.failed fault' last.machine).map Machine.flush).machine.input =
        last.machine.input := congrArg Ending.input hending
    have hpointer : ((Outcome.failed fault' last.machine).map Machine.flush).machine.pointer =
        last.machine.pointer := congrArg Ending.pointer hending
    rw [hinput, hpointer]
    cases hblocked with
    | read hempty => exact .inl ⟨rfl, hempty⟩
    | moveLeft hzero => exact .inr (.inl ⟨rfl, hzero⟩)
    | moveRight hend => exact .inr (.inr ⟨rfl, hend⟩)

/-- A byte is written, and then a loop runs into the end of a tape of two cells. -/
theorem failed_run_keeps_last_state_at_end :
    (⟨#[1, 1], 0, [], #[], [], true⟩ : Machine).OnTape 2 ∧
      execute 6 [.command .write, .loop [.command .moveRight]] ⟨#[1, 1], 0, [], #[], [], true⟩ =
        some (.failed (.pointerOutOfBounds 2 2) ⟨#[1, 1], 1, [], #[1], [1], true⟩) ∧
      ∃ cs last, (Execution.start [.command .write, .loop [.command .moveRight]]
          ⟨#[1, 1], 0, [], #[], [], true⟩).Performs cs last ∧
        last.step = .stop (.failed (.pointerOutOfBounds 2 2) last.machine) := by
  have hm : (⟨#[1, 1], 0, [], #[], [], true⟩ : Machine).OnTape 2 :=
    ⟨rfl, by decide, by decide⟩
  have hexecute : execute 6 [.command .write, .loop [.command .moveRight]]
      ⟨#[1, 1], 0, [], #[], [], true⟩ =
        some (.failed (.pointerOutOfBounds 2 2) ⟨#[1, 1], 1, [], #[1], [1], true⟩) := rfl
  obtain ⟨cs, last, -, hperforms, -, -, -, hstop, -, -⟩ :=
    (failed_run_keeps_last_state hm hexecute).1 _ rfl
  exact ⟨hm, hexecute, cs, last, hperforms, hstop⟩

/-- An output that has no flush stays without one when a run on it has stopped. -/
theorem unflushable_output_is_not_flushed :
    (⟨#[7], 0, [], #[], [], false⟩ : Machine).OnTape 1 ∧
      ∃ o, execute 2 [.command .write] ⟨#[7], 0, [], #[], [], false⟩ = some o ∧
        o.fault? = none ∧ o.machine.output = #[7] ∧
        ¬ o.machine.FlushedOnceSince ⟨#[7], 0, [], #[], [], false⟩ := by
  refine ⟨⟨rfl, by decide, by decide⟩, .finished ⟨#[7], 0, [], #[7], [], false⟩, rfl, rfl, rfl, ?_⟩
  intro hflushed
  exact absurd hflushed (by simp [Machine.FlushedOnceSince, Outcome.machine])

end Brainfuck
