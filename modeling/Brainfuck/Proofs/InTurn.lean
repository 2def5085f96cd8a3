import Brainfuck.Proofs.Composition
import Brainfuck.Proofs.Concatenation

/-!
Running one program and then another on the machine that it left. A run keeps a cursor and
frames, and none of them outlast the program that they belong to, so a run of two programs put
together ends as the two runs in turn do (`Program.endsWith_append_iff`,
`exists_executeInTurn_iff`). The two runs differ from the one in what is flushed: the
first flushes when it is over. That has no bearing on the second, since nothing looks at the
record of flushes (`Program.Yields.withFlushes`).

Source texts that parse each on their own parse as one text to the programs put together, so
running the one text is running the two in turn (`append_runs_in_turn`).
-/

set_option autoImplicit false
set_option relaxedAutoImplicit false

namespace Brainfuck

namespace Machine

/-- The same machine with another record of flushes. -/
def withFlushes (m : Machine) (flushes : List Nat) : Machine := { m with flushes := flushes }

/-- No command looks at the record of flushes. -/
theorem Effect.withFlushes {m : Machine} {c : Command} {o : Outcome} (h : m.Effect c o)
    (flushes : List Nat) : (m.withFlushes flushes).Effect c (o.map (·.withFlushes flushes)) := by
  cases h with
  | move hc htarget => exact .move hc htarget
  | moveOver hc htarget => exact .moveOver hc htarget
  | add hc hslot hcell => exact .add hc hslot hcell
  | addNoCell hc hslot => exact .addNoCell hc hslot
  | write hcell => exact .write hcell
  | writeNoCell hcell => exact .writeNoCell hcell
  | read hinput hslot => exact .read hinput hslot
  | readNoCell hinput hslot => exact .readNoCell hinput hslot
  | readNothing hinput => exact .readNothing hinput

end Machine

theorem Outcome.ending_map_withFlushes (o : Outcome) (flushes : List Nat) :
    (o.map (·.withFlushes flushes)).ending = o.ending := by
  cases o <;> rfl

/-- More steps than suffice change nothing. -/
theorem execute_mono {fuel more : Nat} {p : Program} {m : Machine} {o : Outcome}
    (hle : fuel ≤ more) (hexecute : execute fuel p m = some o) : execute more p m = some o := by
  simp only [execute, Option.map_eq_some_iff, Execution.runFor_eq] at hexecute ⊢
  obtain ⟨r, hrun, hr⟩ := hexecute
  exact ⟨r, Transition.runFor_mono hle hrun, hr⟩

namespace Program

variable {a b p : Program} {m : Machine} {o : Outcome} {ending : Ending}

/-- Nothing in a program looks at the record of flushes. -/
theorem Yields.withFlushes (h : p.Yields m o) (flushes : List Nat) :
    p.Yields (m.withFlushes flushes) (o.map (·.withFlushes flushes)) := by
  have hcommand {m : Machine} {c : Command} {o : Outcome} (hacts : c.Acts m o) :
      c.Acts (m.withFlushes flushes) (o.map (·.withFlushes flushes)) := by
    rw [Command.acts_iff, Machine.apply_eq_iff] at hacts ⊢
    exact hacts.withFlushes flushes
  induction h with
  | nil => exact .nil
  | command hacts _ ih => exact .command (hcommand hacts) ih
  | commandFails hacts => exact .commandFails (hcommand hacts)
  | loopNoCell hcell => exact .loopNoCell hcell
  | loopDone hcell _ ih => exact .loopDone hcell ih
  | loopAgain hcell hvalue _ _ ihbody ihagain => exact .loopAgain hcell hvalue ihbody ihagain
  | loopFails hcell hvalue _ ih => exact .loopFails hcell hvalue ih

theorem EndsWith.withFlushes (h : p.EndsWith m ending) (flushes : List Nat) :
    p.EndsWith (m.withFlushes flushes) ending := by
  obtain ⟨o, hyields, rfl⟩ := endsWith_iff.mp h
  exact endsWith_iff.mpr ⟨_, hyields.withFlushes flushes, o.ending_map_withFlushes flushes⟩

/-- A program ends alike whether or not there was a flush before it. -/
theorem endsWith_flush_iff : p.EndsWith m.flush ending ↔ p.EndsWith m ending := by
  have hflush : m.flush = m.withFlushes m.flush.flushes := m.flush_eq
  constructor
  · intro h
    have hback := h.withFlushes m.flushes
    rwa [hflush] at hback
  · intro h
    rw [hflush]
    exact h.withFlushes _

theorem exists_execute_finished_iff {m' : Machine} :
    (∃ fuel, execute fuel p m = some (.finished m')) ↔
      ∃ m₁, p.Yields m (.finished m₁) ∧ m₁.flush = m' := by
  rw [exists_execute_iff]
  constructor
  · rintro ⟨o, hyields, ho⟩
    cases o with
    | finished m₁ => exact ⟨m₁, hyields, Outcome.finished.inj ho⟩
    | failed fault m₁ => cases ho
  · rintro ⟨m₁, hyields, rfl⟩
    exact ⟨_, hyields, rfl⟩

/-- Two programs put together end with the fault of the first, or as the second does on the
machine that a good end of the first leaves. -/
theorem endsWith_append_iff : (a ++ b).EndsWith m ending ↔
    (∃ fault, ending.fault? = some fault ∧ a.EndsWith m ending) ∨
      ∃ fuel m', execute fuel a m = some (.finished m') ∧ b.EndsWith m' ending := by
  constructor
  · intro h
    obtain ⟨o, hyields, rfl⟩ := endsWith_iff.mp h
    obtain ⟨r, ha, hb⟩ := yields_append_iff.mp hyields
    cases r with
    | finished m₁ =>
      obtain ⟨fuel, hexecute⟩ := exists_execute_finished_iff.mpr ⟨m₁, ha, rfl⟩
      exact .inr ⟨fuel, _, hexecute, endsWith_flush_iff.mpr (endsWith_iff.mpr ⟨o, hb, rfl⟩)⟩
    | failed fault m₁ =>
      cases hb
      exact .inl ⟨fault, rfl, endsWith_iff.mpr ⟨_, ha, rfl⟩⟩
  · rintro (⟨fault, hfault, ha⟩ | ⟨fuel, m', hexecute, hb⟩)
    · obtain ⟨o, hyields, rfl⟩ := endsWith_iff.mp ha
      cases o with
      | finished m₁ => cases hfault
      | failed fault' m₁ =>
        exact endsWith_iff.mpr ⟨_, yields_append_iff.mpr ⟨_, hyields, rfl⟩, rfl⟩
    · obtain ⟨m₁, hyields, rfl⟩ := exists_execute_finished_iff.mp ⟨fuel, hexecute⟩
      obtain ⟨o, hyields', rfl⟩ := endsWith_iff.mp (endsWith_flush_iff.mp hb)
      exact endsWith_iff.mpr ⟨o, yields_append_iff.mpr ⟨_, hyields, hyields'⟩, rfl⟩

end Program

/-! ### Two runs on one machine -/

/-- Runs one program and then, unless it fails, the other on the machine that it left. -/
def executeInTurn (fuel : Nat) (a b : Program) (m : Machine) : Option Outcome :=
  match execute fuel a m with
  | some (.finished m') => execute fuel b m'
  | stopped => stopped

variable {a b : Program} {m : Machine} {ending : Ending}

theorem exists_executeInTurn_iff :
    (∃ fuel o, executeInTurn fuel a b m = some o ∧ o.ending = ending) ↔
      (a ++ b).EndsWith m ending := by
  rw [Program.endsWith_append_iff]
  constructor
  · rintro ⟨fuel, o, hturn, rfl⟩
    cases ha : execute fuel a m with
    | none => simp only [executeInTurn, ha, reduceCtorEq] at hturn
    | some r =>
      cases r with
      | finished m' =>
        simp only [executeInTurn, ha] at hturn
        exact .inr ⟨fuel, m', ha, fuel, o, hturn, rfl⟩
      | failed fault m' =>
        simp only [executeInTurn, ha, Option.some.injEq] at hturn
        subst hturn
        exact .inl ⟨fault, rfl, fuel, _, ha, rfl⟩
  · rintro (⟨fault, hfault, fuel, o, ha, rfl⟩ | ⟨fuel, m', ha, fuel', o, hb, rfl⟩)
    · cases o with
      | finished m' => cases hfault
      | failed fault' m' => exact ⟨fuel, _, by simp only [executeInTurn, ha], rfl⟩
    · -- Each run has its own number of steps, and more of them do no harm.
      refine ⟨max fuel fuel', o, ?_, rfl⟩
      simp only [executeInTurn, execute_mono (Nat.le_max_left fuel fuel') ha]
      exact execute_mono (Nat.le_max_right fuel fuel') hb

theorem runsForever_append_iff :
    (a ++ b).RunsForever m ↔ ∀ fuel, executeInTurn fuel a b m = none := by
  constructor
  · intro hforever fuel
    cases hturn : executeInTurn fuel a b m with
    | none => rfl
    | some o =>
      obtain ⟨fuel', r, hexecute, -⟩ := exists_executeInTurn_iff.mp ⟨fuel, o, hturn, rfl⟩
      exact absurd ((hforever fuel').symm.trans hexecute) (by simp)
  · intro hnone fuel
    cases hexecute : execute fuel (a ++ b) m with
    | none => rfl
    | some o =>
      obtain ⟨fuel', r, hturn, -⟩ := exists_executeInTurn_iff.mpr ⟨fuel, o, hexecute, rfl⟩
      exact absurd ((hnone fuel').symm.trans hturn) (by simp)

/-! ### Two sources -/

theorem scan_append (source source' : String) :
    scan (source ++ source') = scan source ++ scan source' := by
  simp only [scan, String.toList_append, List.filterMap_append]

theorem parseSource_append {source source' : String} {p q : Program}
    (hparse : parseSource source = .ok p) (hparse' : parseSource source' = .ok q) :
    parseSource (source ++ source') = .ok (p ++ q) := by
  rw [parseSource, scan_append]
  exact parse_append_ok hparse hparse'

/-- From any machine, whatever its tape, its pointer and its input, a run of two programs put
together stops exactly as the first does if that fails, or else as the second does on the machine
that the first leaves at its good end. So if two sources parse each on their own, the source that
they make together parses, and its run is the two runs in turn: it leaves what they leave, the
record of flushes aside, and goes on for ever exactly if they do. -/
theorem append_runs_in_turn :
    (∀ (a b : Program) (m : Machine) (ending : Ending), (a ++ b).EndsWith m ending ↔
      (∃ fault, ending.fault? = some fault ∧ a.EndsWith m ending) ∨
        ∃ fuel m', execute fuel a m = some (.finished m') ∧ b.EndsWith m' ending) ∧
      ∀ (source source' : String) (p q : Program), parseSource source = .ok p →
        parseSource source' = .ok q →
        ∃ joined, parseSource (source ++ source') = .ok joined ∧ ∀ m : Machine,
          (∀ ending, joined.EndsWith m ending ↔
            ∃ fuel o, executeInTurn fuel p q m = some o ∧ o.ending = ending) ∧
          (joined.RunsForever m ↔ ∀ fuel, executeInTurn fuel p q m = none) := by
  constructor
  · intro a b m ending
    exact Program.endsWith_append_iff
  · intro source source' p q hparse hparse'
    refine ⟨p ++ q, parseSource_append hparse hparse', fun m ↦ ⟨fun ending ↦ ?_, ?_⟩⟩
    · exact exists_executeInTurn_iff.symm
    · exact runsForever_append_iff

/-- A loop and, behind it, a move over the end of a single cell. -/
theorem append_runs_in_turn_over_end :
    (parseSource "+[-]" = .ok [.command .increment, .loop [.command .decrement]] ∧
      parseSource ".>" = .ok [.command .write, .command .moveRight]) ∧
      ∃ joined, parseSource ("+[-]" ++ ".>") = .ok joined ∧
        joined.EndsWith ⟨#[0], 0, [], #[], [], true⟩
          ⟨some (.pointerOutOfBounds 1 1), #[0], 0, [], #[0]⟩ := by
  have hloop : parseSource "+[-]" = .ok [.command .increment, .loop [.command .decrement]] := rfl
  have hmove : parseSource ".>" = .ok [.command .write, .command .moveRight] := rfl
  obtain ⟨joined, hjoined, hends⟩ := append_runs_in_turn.2 _ _ _ _ hloop hmove
  refine ⟨⟨hloop, hmove⟩, joined, hjoined, ((hends _).1 _).mpr ?_⟩
  exact ⟨6, .failed (.pointerOutOfBounds 1 1) ⟨#[0], 0, [], #[0], [1, 0], true⟩, rfl, rfl⟩

end Brainfuck
