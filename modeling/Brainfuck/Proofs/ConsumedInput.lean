import Brainfuck.Proofs.Effect
import Brainfuck.Proofs.Reachable

/-!
A run depends on the input that it has consumed and on nothing behind it. A command that
reads takes one byte and every other step takes none; what is left unread can be replaced
by anything (`Execution.exists_taken_of_step`). Step by step, two runs whose inputs agree
on what the first one consumes go the same way (`Execution.Reaches.exists_taken`), and a
run whose input ends earlier stops for want of input (`Execution.Consumes`).

Nothing here asks for the pointer to be on the tape: a byte is taken before the cell for it
is looked for, so it is consumed also where there is no cell.
-/

set_option autoImplicit false
set_option relaxedAutoImplicit false

namespace Brainfuck

namespace Machine

/-- The same machine with something else to read. -/
def withInput (m : Machine) (input : List UInt8) : Machine := { m with input := input }

/-- A command that does not fail for want of input takes some of it and leaves the rest, and
any other rest would have done as well. It takes one byte at most, and if it takes one it
would have failed without. -/
theorem Effect.exists_taken {m : Machine} {c : Command} {o : Outcome} (h : m.Effect c o)
    (hfault : o.fault? ≠ some .inputExhausted) :
    ∃ taken, m.input = taken ++ o.machine.input ∧
      (∀ rest, (m.withInput (taken ++ rest)).Effect c (o.map (·.withInput rest))) ∧
      (taken = [] ∨ ∃ byte, taken = [byte] ∧
        (m.withInput []).Effect c (.failed .inputExhausted (m.withInput []))) := by
  cases h with
  | move hc htarget => exact ⟨[], rfl, fun _ ↦ .move hc htarget, .inl rfl⟩
  | moveOver hc htarget => exact ⟨[], rfl, fun _ ↦ .moveOver hc htarget, .inl rfl⟩
  | add hc hslot hcell => exact ⟨[], rfl, fun _ ↦ .add hc hslot hcell, .inl rfl⟩
  | addNoCell hc hslot => exact ⟨[], rfl, fun _ ↦ .addNoCell hc hslot, .inl rfl⟩
  | write hcell => exact ⟨[], rfl, fun _ ↦ .write hcell, .inl rfl⟩
  | writeNoCell hcell => exact ⟨[], rfl, fun _ ↦ .writeNoCell hcell, .inl rfl⟩
  | @read byte rest i hinput hslot =>
    exact ⟨[byte], hinput, fun _ ↦ .read rfl hslot, .inr ⟨byte, rfl, .readNothing rfl⟩⟩
  | @readNoCell byte rest hinput hslot =>
    exact ⟨[byte], hinput, fun _ ↦ .readNoCell rfl hslot, .inr ⟨byte, rfl, .readNothing rfl⟩⟩
  | readNothing hinput => exact absurd rfl hfault

/-- The only command that fails for want of input is reading, and it leaves the machine as
it was. -/
theorem Effect.input_of_exhausted {m m' : Machine} {c : Command}
    (h : m.Effect c (.failed .inputExhausted m')) : m.input = [] ∧ m' = m := by
  cases h with
  | readNothing hinput => exact ⟨hinput, rfl⟩

/-- Commands only ever add to the output. -/
theorem Effect.output_grows {m : Machine} {c : Command} {o : Outcome} (h : m.Effect c o) :
    m.output.toList <+: o.machine.output.toList := by
  cases h with
  | write hcell =>
    change m.output.toList <+: (m.output.push _).toList
    rw [Array.toList_push]
    exact List.prefix_append _ _
  | _ => exact List.prefix_rfl

end Machine

namespace Execution

/-- The same place in the program, with something else to read. -/
def withInput (e : Execution) (input : List UInt8) : Execution :=
  e.on (e.machine.withInput input)

end Execution

namespace Transition

/-- The machine behind a step. -/
def machine : Transition Execution → Machine
  | .next e => e.machine
  | .stop o => o.machine

def withInput (input : List UInt8) : Transition Execution → Transition Execution
  | .next e => .next (e.withInput input)
  | .stop o => .stop (o.map (·.withInput input))

end Transition

namespace Execution

theorem advance_withInput (e : Execution) (input rest : List UInt8) (o : Outcome) :
    (e.withInput input).advance (o.map (·.withInput rest)) = (e.advance o).withInput rest := by
  cases o <;> rfl

theorem machine_advance (e : Execution) (o : Outcome) : (e.advance o).machine = o.machine := by
  cases o <;> rfl

/-- A step that does not stop for want of input takes some of it and leaves the rest, and any
other rest would have led to the same place. It takes one byte at most, and if it takes
one it would have stopped without. -/
theorem exists_taken_of_step {e : Execution}
    (hfault : ∀ m, e.step ≠ .stop (.failed .inputExhausted m)) :
    ∃ taken, e.machine.input = taken ++ e.step.machine.input ∧
      (∀ rest, (e.withInput (taken ++ rest)).step = e.step.withInput rest) ∧
      (taken = [] ∨ ∃ byte, taken = [byte] ∧
        (e.withInput []).step = .stop (.failed .inputExhausted (e.machine.withInput []))) := by
  cases hcommand : e.command? with
  | some c =>
    have hstep (m : Machine) : (e.on m).step = (e.on m).advance (m.apply c) :=
      step_of_command hcommand
    have hexhausted : (e.machine.apply c).fault? ≠ some .inputExhausted := by
      intro hfault'
      cases happly : e.machine.apply c with
      | finished m => simp [happly, Outcome.fault?] at hfault'
      | failed fault m =>
        obtain rfl : fault = .inputExhausted := by simpa [happly, Outcome.fault?] using hfault'
        exact hfault m ((hstep e.machine).trans (by rw [happly, advance]))
    obtain ⟨taken, hinput, hrest, hnone⟩ :=
      (e.machine.effect_apply c).exists_taken hexhausted
    have hself : e.step = e.advance (e.machine.apply c) := hstep e.machine
    refine ⟨taken, ?_, fun rest ↦ ?_, ?_⟩
    · rw [hself, machine_advance]
      exact hinput
    · rw [hself, ← advance_withInput e (taken ++ rest), ← (hrest rest).apply_eq]
      exact hstep _
    · rcases hnone with htaken | ⟨byte, htaken, hempty⟩
      · exact .inl htaken
      · exact .inr ⟨byte, htaken, (hstep _).trans (by rw [hempty.apply_eq, advance])⟩
  | none =>
    rcases step_elsewhere hcommand with ⟨e', hnext⟩ | hdone | ⟨hcell, hnone⟩
    · have hself : e.step = .next (e'.on e.machine) := hnext e.machine rfl
      rw [hself]
      exact ⟨[], rfl, fun rest ↦ hnext _ rfl, .inl rfl⟩
    · have hself : e.step = .stop (.finished e.machine) := hdone e.machine
      rw [hself]
      exact ⟨[], rfl, fun rest ↦ hdone _, .inl rfl⟩
    · have hself : e.step = .stop (.failed (.noCell e.machine.pointer) e.machine) :=
        hnone e.machine hcell
      rw [hself]
      exact ⟨[], rfl, fun rest ↦ hnone _ hcell, .inl rfl⟩

/-- Steps only ever add to the output. -/
theorem output_step_grows (e : Execution) :
    e.machine.output.toList <+: e.step.machine.output.toList := by
  cases hstep : e.step with
  | next e' =>
    rcases step_eq_next hstep with ⟨-, hsame⟩ | ⟨c, -, happly⟩
    · have houtput : e'.machine.output = e.machine.output := congrArg Machine.output hsame
      exact houtput ▸ List.prefix_rfl
    · exact (Machine.apply_eq_iff.mp happly).output_grows
  | stop o =>
    rcases step_eq_stop hstep with rfl | ⟨-, rfl⟩ | ⟨c, fault, m, -, happly, rfl⟩
    · exact List.prefix_rfl
    · exact List.prefix_rfl
    · exact (Machine.apply_eq_iff.mp happly).output_grows

theorem Reaches.output_grows {e e' : Execution} (hreaches : e.Reaches e') :
    e.machine.output.toList <+: e'.machine.output.toList := by
  refine hreaches.invariant
    (P := fun e' ↦ e.machine.output.toList <+: e'.machine.output.toList) ?_ List.prefix_rfl
  intro e₁ e₂ hbefore hstep
  have hgrows := e₁.output_step_grows
  rw [hstep] at hgrows
  exact hbefore.trans hgrows

theorem output_grows_of_stopsWith {e : Execution} {o : Outcome}
    (hstops : Transition.StopsWith step (.next e) o) :
    e.machine.output.toList <+: o.machine.output.toList := by
  obtain ⟨last, hreaches, hlast⟩ := Transition.stopsWith_iff_reaches.mp hstops
  have hgrows := last.output_step_grows
  rw [hlast] at hgrows
  exact (Reaches.output_grows hreaches).trans hgrows

/-- What a run takes from its input: `taken`, and then it stops with `o`. With the same bytes
and any others behind them it stops alike and leaves those unread; with fewer it stops for
want of input, and has written no more than it would have. -/
structure Consumes (t : Transition Execution) (taken : List UInt8) (o : Outcome) : Prop where
  input_eq : t.machine.input = taken ++ o.machine.input
  stopsWith (rest : List UInt8) :
    Transition.StopsWith step (t.withInput (taken ++ rest)) (o.map (·.withInput rest))
  starves (short : List UInt8) : short <+: taken → short ≠ taken →
    ∃ m, Transition.StopsWith step (t.withInput short) (.failed .inputExhausted m) ∧
      m.input = [] ∧ m.output.toList <+: o.machine.output.toList

theorem consumes_stop (o : Outcome) : Consumes (.stop o) [] o where
  input_eq := rfl
  stopsWith _ := Transition.stopsWith_stop_iff.mpr rfl
  starves _ hshort hne := absurd (List.prefix_nil.mp hshort) hne

/-- What a run takes is what its first step takes and then what the rest takes. -/
theorem Consumes.exists_of_step {e : Execution} {taken : List UInt8} {o : Outcome}
    (h : Consumes e.step taken o) (hstops : Transition.StopsWith step (.next e) o)
    (hfault : ∀ m, e.step ≠ .stop (.failed .inputExhausted m)) :
    ∃ first, Consumes (.next e) (first ++ taken) o := by
  obtain ⟨first, hinput, hrest, hfirst⟩ := exists_taken_of_step hfault
  have hnext (input : List UInt8) (r : Outcome) :
      Transition.StopsWith step (.next (e.withInput (first ++ input))) r ↔
        Transition.StopsWith step (e.step.withInput input) r := by
    rw [Transition.stopsWith_next_iff, hrest]
  refine ⟨first, ?_, fun rest ↦ ?_, fun short hshort hne ↦ ?_⟩
  · rw [List.append_assoc, ← h.input_eq]
    exact hinput
  · rw [List.append_assoc]
    exact (hnext _ _).mpr (h.stopsWith rest)
  · rcases hfirst with rfl | ⟨byte, rfl, hempty⟩
    · obtain ⟨m, hm, hread⟩ := h.starves short hshort hne
      exact ⟨m, (hnext short _).mpr hm, hread⟩
    · cases short with
      | nil =>
        -- The first step already lacks its byte.
        refine ⟨e.machine.withInput [], ?_, rfl, output_grows_of_stopsWith hstops⟩
        exact Transition.stopsWith_next_iff.mpr (hempty ▸ Transition.stopsWith_stop_iff.mpr rfl)
      | cons b short =>
        obtain ⟨rfl, hprefix⟩ := List.cons_prefix_cons.mp hshort
        obtain ⟨m, hm, hread⟩ := h.starves short hprefix fun heq ↦ hne (congrArg (b :: ·) heq)
        exact ⟨m, (hnext short _).mpr hm, hread⟩

/-- Every run that stops, and not for want of input, has taken some of it. -/
theorem exists_consumes {e : Execution} {o : Outcome}
    (hstops : Transition.StopsWith step (.next e) o) (hfault : o.fault? ≠ some .inputExhausted) :
    ∃ taken, Consumes (.next e) taken o := by
  obtain ⟨last, hreaches, hlast⟩ := Transition.stopsWith_iff_reaches.mp hstops
  -- Backwards from the last step: what is taken is put in front of what is taken later.
  induction hreaches using Relation.ReflTransGen.head_induction_on with
  | refl =>
    have hconsumes := consumes_stop o
    rw [← hlast] at hconsumes
    obtain ⟨first, hfirst⟩ := hconsumes.exists_of_step hstops fun m hm ↦
      hfault (congrArg Outcome.fault? (Transition.stop.inj (hlast.symm.trans hm)))
    exact ⟨_, hfirst⟩
  | @head e e' hstep hrest ih =>
    obtain ⟨taken, htaken⟩ := ih (Transition.stopsWith_iff_reaches.mpr ⟨last, hrest, hlast⟩)
    rw [← hstep] at htaken
    obtain ⟨first, hfirst⟩ := htaken.exists_of_step hstops fun m hm ↦ by simp [hstep] at hm
    exact ⟨_, hfirst⟩

/-- Two runs whose inputs agree on what the first one has taken so far have come to the same
place, and each has its own rest unread. -/
theorem Reaches.exists_taken {e e' : Execution} (hreaches : e.Reaches e') :
    ∃ taken, e.machine.input = taken ++ e'.machine.input ∧
      ∀ rest, (e.withInput (taken ++ rest)).Reaches (e'.withInput rest) := by
  induction hreaches using Relation.ReflTransGen.head_induction_on with
  | refl => exact ⟨[], rfl, fun _ ↦ .refl⟩
  | @head e e₁ hstep _ ih =>
    obtain ⟨taken, hinput, hrest⟩ := ih
    obtain ⟨first, hfirst, hnext, -⟩ :=
      exists_taken_of_step (e := e) fun m hm ↦ by simp [hstep] at hm
    rw [hstep] at hfirst hnext
    refine ⟨first ++ taken, ?_, fun rest ↦ ?_⟩
    · rw [List.append_assoc, ← hinput]
      exact hfirst
    · rw [List.append_assoc]
      exact .head (hnext _) (hrest rest)

/-- A run that stops for want of input has none left, and stops in the state it is in. -/
theorem input_of_stop_exhausted {e : Execution} {o : Outcome} (hstep : e.step = .stop o)
    (hfault : o.fault? = some .inputExhausted) :
    e.machine.input = [] ∧ o = .failed .inputExhausted e.machine := by
  rcases step_eq_stop hstep with rfl | ⟨-, rfl⟩ | ⟨c, fault, m, -, happly, rfl⟩
  · simp [Outcome.fault?] at hfault
  · simp [Outcome.fault?] at hfault
  · obtain rfl : fault = .inputExhausted := Option.some.inj hfault
    obtain ⟨hinput, rfl⟩ := (Machine.apply_eq_iff.mp happly).input_of_exhausted
    exact ⟨hinput, rfl⟩

end Execution

namespace Outcome

theorem ending_map_withInput (o : Outcome) (input : List UInt8) :
    (o.map (·.withInput input)).ending = { o.ending with input := input } := by
  cases o <;> rfl

end Outcome

/-- A run depends on the input that it has consumed only. If it stops, and not for want of input,
having consumed `c`, then it stops alike with anything behind `c` and leaves that unread; and
with less than `c` it consumes all there is, stops for want of input and has written a
part of what it would have written. If it stops for want of input, then with more input it
comes to the same state with what is added unread, and from there on only adds to
what it has written. -/
theorem run_depends_on_consumed_input (p : Program) (m : Machine) :
    (∀ ending, p.EndsWith m ending → ending.fault? ≠ some .inputExhausted →
      ∃ c, m.input = c ++ ending.input ∧
        (∀ j, p.EndsWith { m with input := c ++ j } { ending with input := j }) ∧
        ∀ c', c' <+: c → c' ≠ c → ∃ ending', p.EndsWith { m with input := c' } ending' ∧
          ending'.fault? = some .inputExhausted ∧ ending'.input = [] ∧
          ending'.output.toList <+: ending.output.toList) ∧
      ∀ i ending, p.EndsWith { m with input := i } ending →
        ending.fault? = some .inputExhausted → ending.input = [] ∧
          ∀ j, ∃ e, (Execution.start p { m with input := i ++ j }).Reaches e ∧
            e.machine.tape = ending.tape ∧ e.machine.pointer = ending.pointer ∧
            e.machine.output = ending.output ∧ e.machine.input = j ∧
            (∀ e', e.Reaches e' → ending.output.toList <+: e'.machine.output.toList) ∧
            ∀ ending', p.EndsWith { m with input := i ++ j } ending' →
              ending.output.toList <+: ending'.output.toList := by
  constructor
  · intro ending hends hfault
    obtain ⟨o, hstops, rfl⟩ := Program.endsWith_iff_stopsWith.mp hends
    obtain ⟨c, hconsumes⟩ := Execution.exists_consumes hstops hfault
    refine ⟨c, hconsumes.input_eq, fun j ↦ ?_, fun c' hc' hne ↦ ?_⟩
    · rw [← o.ending_map_withInput]
      exact Program.endsWith_iff_stopsWith.mpr ⟨_, hconsumes.stopsWith j, rfl⟩
    · obtain ⟨m', hm', hinput, houtput⟩ := hconsumes.starves c' hc' hne
      exact ⟨_, Program.endsWith_iff_stopsWith.mpr ⟨_, hm', rfl⟩, rfl, hinput, houtput⟩
  · intro i ending hends hfault
    obtain ⟨o, hstops, rfl⟩ := Program.endsWith_iff_stopsWith.mp hends
    obtain ⟨last, hreaches, hlast⟩ := Transition.stopsWith_iff_reaches.mp hstops
    obtain ⟨hempty, rfl⟩ := Execution.input_of_stop_exhausted hlast hfault
    obtain ⟨taken, hinput, hrest⟩ := Execution.Reaches.exists_taken hreaches
    obtain rfl : i = taken := by
      rw [hempty, List.append_nil] at hinput
      exact hinput
    refine ⟨hempty, fun j ↦ ⟨last.withInput j, hrest j, rfl, rfl, rfl, rfl, ?_, ?_⟩⟩
    · intro e' hafter
      exact Execution.Reaches.output_grows (e := last.withInput j) hafter
    · intro ending' hends'
      obtain ⟨o', hstops', rfl⟩ := Program.endsWith_iff_stopsWith.mp hends'
      have hafter : Transition.StopsWith Execution.step (.next (last.withInput j)) o' :=
        (Transition.Reaches.stopsWith_iff (hrest j)).mp hstops'
      exact Execution.output_grows_of_stopsWith (e := last.withInput j) hafter

/-- A program that writes what it reads up to a zero: with other input behind the zero, with
input that ends before it, and with that input continued. -/
theorem run_depends_on_consumed_input_up_to_zero :
    Program.EndsWith [.command .read, .loop [.command .write, .command .read]]
        ⟨#[0], 0, [5, 0, 9], #[], [], true⟩ ⟨none, #[0], 0, [9], #[5]⟩ ∧
      Program.EndsWith [.command .read, .loop [.command .write, .command .read]]
        ⟨#[0], 0, [5, 0, 1, 2], #[], [], true⟩ ⟨none, #[0], 0, [1, 2], #[5]⟩ ∧
      (∃ ending, Program.EndsWith [.command .read, .loop [.command .write, .command .read]]
          ⟨#[0], 0, [5], #[], [], true⟩ ending ∧ ending.fault? = some .inputExhausted) ∧
      ∃ e, (Execution.start [.command .read, .loop [.command .write, .command .read]]
          ⟨#[0], 0, [5, 0, 9], #[], [], true⟩).Reaches e ∧ e.machine.input = [0, 9] := by
  have hends : Program.EndsWith [.command .read, .loop [.command .write, .command .read]]
      ⟨#[0], 0, [5, 0, 9], #[], [], true⟩ ⟨none, #[0], 0, [9], #[5]⟩ :=
    ⟨7, _, rfl, rfl⟩
  obtain ⟨hconsumed, hexhausted⟩ :=
    run_depends_on_consumed_input [.command .read, .loop [.command .write, .command .read]]
      ⟨#[0], 0, [5, 0, 9], #[], [], true⟩
  obtain ⟨c, hinput, hmore, hless⟩ := hconsumed _ hends (by decide)
  have hc : [5, 0] ++ [9] = c ++ [9] := hinput
  obtain rfl : [5, 0] = c := List.append_cancel_right hc
  obtain ⟨ending, hending, hfault, -⟩ := hless [5] (by decide) (by decide)
  obtain ⟨e, hreaches, -, -, -, hrest, -⟩ := (hexhausted [5] ending hending hfault).2 [0, 9]
  exact ⟨hends, hmore [1, 2], ⟨ending, hending, hfault⟩, e, hreaches, hrest⟩

end Brainfuck
