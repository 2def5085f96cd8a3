import Brainfuck.Execution

/-!
Programs by their structure. `Command.Acts` names the operation of the machine
that each command stands for, and `Program.Yields` says what a program makes of a
machine without a cursor and without frames: a place in the program is a place
in the derivation. A run that never ends is a program without a derivation.

Every way of running programs that keeps its own place is compared with it
through `Realizes`. Such a machine takes steps, and a step leads to another of
its states or to an end (`Transition`). It realizes the structural rules if,
whenever it stands before a piece of a program, its next steps do what the
rule for the first instruction of that piece says. `Realizes.stopsWith_iff` then
turns the rules into runs and the runs into rules.
-/

set_option autoImplicit false
set_option relaxedAutoImplicit false

namespace Brainfuck

namespace Command

/-- What a command makes of a machine: it moves the pointer by one cell, changes the cell under
it by one, writes that cell, or reads into it. -/
inductive Acts : Command → Machine → Outcome → Prop
  | moveRight {m : Machine} : Acts .moveRight m (m.move 1)
  | moveLeft {m : Machine} : Acts .moveLeft m (m.move (-1))
  | increment {m : Machine} : Acts .increment m (m.add 1)
  | decrement {m : Machine} : Acts .decrement m (m.add (-1))
  | write {m : Machine} : Acts .write m m.write
  | read {m : Machine} : Acts .read m m.read

theorem acts_iff {c : Command} {m : Machine} {o : Outcome} : c.Acts m o ↔ m.apply c = o := by
  constructor
  · rintro ⟨⟩ <;> rfl
  · rintro rfl
    cases c with
    | moveRight => exact .moveRight
    | moveLeft => exact .moveLeft
    | increment => exact .increment
    | decrement => exact .decrement
    | write => exact .write
    | read => exact .read

end Command

namespace Program

/-- What a program makes of a machine. A command acts once; instructions follow each
other from left to right up to the first fault; a loop is over when the cell is zero, and
otherwise its whole body runs and then the loop itself again. -/
inductive Yields : Program → Machine → Outcome → Prop
  | nil {m : Machine} : Yields [] m (.finished m)
  | command {c : Command} {p : Program} {m m' : Machine} {o : Outcome}
      (hacts : c.Acts m (.finished m')) (hrest : Yields p m' o) :
      Yields (.command c :: p) m o
  | commandFails {c : Command} {p : Program} {m m' : Machine} {fault : Fault}
      (hacts : c.Acts m (.failed fault m')) :
      Yields (.command c :: p) m (.failed fault m')
  | loopNoCell {body p : Program} {m : Machine} (hcell : m.cell? = none) :
      Yields (.loop body :: p) m (.failed (.noCell m.pointer) m)
  | loopDone {body p : Program} {m : Machine} {o : Outcome}
      (hcell : m.cell? = some 0) (hrest : Yields p m o) :
      Yields (.loop body :: p) m o
  | loopAgain {body p : Program} {m m' : Machine} {value : UInt8} {o : Outcome}
      (hcell : m.cell? = some value) (hvalue : value ≠ 0)
      (hbody : Yields body m (.finished m')) (hagain : Yields (.loop body :: p) m' o) :
      Yields (.loop body :: p) m o
  | loopFails {body p : Program} {m m' : Machine} {value : UInt8} {fault : Fault}
      (hcell : m.cell? = some value) (hvalue : value ≠ 0)
      (hbody : Yields body m (.failed fault m')) :
      Yields (.loop body :: p) m (.failed fault m')

variable {c : Command} {p : Program} {m m' : Machine} {o : Outcome} {fault : Fault}

theorem yields_command_of_finished (happly : m.apply c = .finished m') :
    Yields (.command c :: p) m o ↔ Yields p m' o := by
  constructor
  · intro h
    cases h with
    | command hacts hrest =>
      obtain rfl := Outcome.finished.inj (happly.symm.trans (Command.acts_iff.mp hacts))
      exact hrest
    | commandFails hacts =>
      exact absurd (happly.symm.trans (Command.acts_iff.mp hacts)) (by simp)
  · exact .command (Command.acts_iff.mpr happly)

theorem yields_command_of_failed (happly : m.apply c = .failed fault m') :
    Yields (.command c :: p) m o ↔ o = .failed fault m' := by
  constructor
  · intro h
    cases h with
    | command hacts =>
      exact absurd (happly.symm.trans (Command.acts_iff.mp hacts)) (by simp)
    | commandFails hacts => exact (Command.acts_iff.mp hacts).symm.trans happly
  · rintro rfl
    exact .commandFails (Command.acts_iff.mpr happly)

end Program

namespace Transition

variable {σ : Type} {step : σ → Transition σ}

/-- Goes on from a transition; `none` if `fuel` steps do not suffice. -/
def runFor (step : σ → Transition σ) : Nat → Transition σ → Option Outcome
  | _, .stop o => some o
  | 0, .next _ => none
  | fuel + 1, .next s => runFor step fuel (step s)

/-- Some number of steps leads from a transition to an end. -/
def StopsWith (step : σ → Transition σ) (t : Transition σ) (o : Outcome) : Prop :=
  ∃ fuel, runFor step fuel t = some o

@[simp] theorem runFor_stop (fuel : Nat) (o : Outcome) :
    runFor step fuel (.stop o) = some o := by
  cases fuel <;> rfl

@[simp] theorem runFor_succ_next (fuel : Nat) (s : σ) :
    runFor step (fuel + 1) (.next s) = runFor step fuel (step s) := rfl

theorem exists_of_runFor_next {fuel : Nat} {s : σ} {o : Outcome}
    (hrun : runFor step fuel (.next s) = some o) :
    ∃ fewer, fuel = fewer + 1 ∧ runFor step fewer (step s) = some o := by
  cases fuel with
  | zero => simp [runFor] at hrun
  | succ fewer => exact ⟨fewer, rfl, hrun⟩

/-- More steps than suffice change nothing. -/
theorem runFor_mono {fuel more : Nat} {t : Transition σ} {o : Outcome} (hle : fuel ≤ more)
    (hrun : runFor step fuel t = some o) : runFor step more t = some o := by
  induction fuel generalizing more t with
  | zero =>
    cases t with
    | next s => simp [runFor] at hrun
    | stop o' => simpa using hrun
  | succ fuel ih =>
    cases t with
    | next s =>
      obtain ⟨more, rfl⟩ : ∃ fewer, more = fewer + 1 := ⟨more - 1, by omega⟩
      rw [runFor_succ_next] at hrun ⊢
      exact ih (by omega) hrun
    | stop o' => simpa using hrun

@[simp] theorem stopsWith_stop_iff {o o' : Outcome} : StopsWith step (.stop o) o' ↔ o = o' := by
  simp [StopsWith]

theorem stopsWith_next_iff {s : σ} {o : Outcome} :
    StopsWith step (.next s) o ↔ StopsWith step (step s) o := by
  constructor
  · rintro ⟨fuel, hrun⟩
    obtain ⟨fewer, -, hrun⟩ := exists_of_runFor_next hrun
    exact ⟨fewer, hrun⟩
  · rintro ⟨fuel, hrun⟩
    exact ⟨fuel + 1, hrun⟩

/-- A run has one end. -/
theorem StopsWith.unique {t : Transition σ} {o o' : Outcome} (h : StopsWith step t o)
    (h' : StopsWith step t o') : o = o' := by
  obtain ⟨fuel, hrun⟩ := h
  obtain ⟨fuel', hrun'⟩ := h'
  have hmax := runFor_mono (Nat.le_max_left fuel fuel') hrun
  have hmax' := runFor_mono (Nat.le_max_right fuel fuel') hrun'
  exact Option.some.inj (hmax.symm.trans hmax')

end Transition

/-- Where a run goes from an outcome of one of its pieces: `leave` after a good end, and
nowhere after a fault. -/
def Outcome.follow {σ : Type} (leave : Machine → Transition σ) : Outcome → Transition σ
  | .finished m => leave m
  | .failed fault m => .stop (.failed fault m)

/-- The steps of a machine do what the structural rules say. `At s p m leave` is to mean that
the state `s` stands before the piece `p` with the machine `m`, and that behind the piece
the next transition is `leave`. The fields are the rules, one by one: where a rule ends
a run the step stops, and where it goes on the step reaches the place where it goes on.
Behind the body of a loop is the way back to the loop. -/
structure Realizes {σ : Type} (step : σ → Transition σ)
    (At : σ → Program → Machine → (Machine → Transition σ) → Prop) : Prop where
  nil {s : σ} {m : Machine} {leave : Machine → Transition σ} :
    At s [] m leave → step s = leave m
  command {s : σ} {c : Command} {p : Program} {m m' : Machine}
      {leave : Machine → Transition σ} :
    At s (.command c :: p) m leave → m.apply c = .finished m' →
      ∃ s', step s = .next s' ∧ At s' p m' leave
  commandFails {s : σ} {c : Command} {p : Program} {m m' : Machine} {fault : Fault}
      {leave : Machine → Transition σ} :
    At s (.command c :: p) m leave → m.apply c = .failed fault m' →
      step s = .stop (.failed fault m')
  loopNoCell {s : σ} {body p : Program} {m : Machine} {leave : Machine → Transition σ} :
    At s (.loop body :: p) m leave → m.cell? = none →
      step s = .stop (.failed (.noCell m.pointer) m)
  loopDone {s : σ} {body p : Program} {m : Machine} {leave : Machine → Transition σ} :
    At s (.loop body :: p) m leave → m.cell? = some 0 →
      ∃ s', step s = .next s' ∧ At s' p m leave
  loopEnter {s : σ} {body p : Program} {m : Machine} {value : UInt8}
      {leave : Machine → Transition σ} :
    At s (.loop body :: p) m leave → m.cell? = some value → value ≠ 0 →
      ∃ s' back, step s = .next s' ∧ At s' body m back ∧
        ∀ m', ∃ s'', back m' = .next s'' ∧ At s'' (.loop body :: p) m' leave

namespace Realizes

open Transition

variable {σ : Type} {step : σ → Transition σ}
  {At : σ → Program → Machine → (Machine → Transition σ) → Prop}

/-- A derivation is a way for the run to get behind the piece. -/
theorem stopsWith_of_yields (h : Realizes step At) {p : Program} {m : Machine} {o : Outcome}
    (hyields : p.Yields m o) {s : σ} {leave : Machine → Transition σ} {r : Outcome}
    (hat : At s p m leave) (hfollow : StopsWith step (o.follow leave) r) :
    StopsWith step (step s) r := by
  induction hyields generalizing s leave r with
  | nil =>
    rw [h.nil hat]
    exact hfollow
  | command hacts _ ih =>
    obtain ⟨s', hstep, hat'⟩ := h.command hat (Command.acts_iff.mp hacts)
    rw [hstep, stopsWith_next_iff]
    exact ih hat' hfollow
  | commandFails hacts =>
    rw [h.commandFails hat (Command.acts_iff.mp hacts)]
    exact hfollow
  | loopNoCell hcell =>
    rw [h.loopNoCell hat hcell]
    exact hfollow
  | loopDone hcell _ ih =>
    obtain ⟨s', hstep, hat'⟩ := h.loopDone hat hcell
    rw [hstep, stopsWith_next_iff]
    exact ih hat' hfollow
  | @loopAgain body p m m' value o hcell hvalue _ _ ihbody ihagain =>
    obtain ⟨s', back, hstep, hbody, hback⟩ := h.loopEnter hat hcell hvalue
    obtain ⟨s'', hnext, hagain⟩ := hback m'
    rw [hstep, stopsWith_next_iff]
    refine ihbody hbody ?_
    rw [Outcome.follow, hnext, stopsWith_next_iff]
    exact ihagain hagain hfollow
  | loopFails hcell hvalue _ ih =>
    obtain ⟨s', back, hstep, hbody, -⟩ := h.loopEnter hat hcell hvalue
    rw [hstep, stopsWith_next_iff]
    exact ih hbody hfollow

/-- A run that stops has passed the piece by a derivation, and what was left of it behind
the piece took no more steps than the whole. -/
theorem exists_yields_of_runFor (h : Realizes step At) {fuel : Nat} {p : Program} {m : Machine}
    {s : σ} {leave : Machine → Transition σ} {r : Outcome} (hat : At s p m leave)
    (hrun : runFor step fuel (step s) = some r) :
    ∃ o, p.Yields m o ∧ ∃ left ≤ fuel, runFor step left (o.follow leave) = some r := by
  -- On the number of steps: a second pass through a loop is no smaller program, but a
  -- shorter run.
  induction fuel using Nat.strongRecOn generalizing p m s leave with
  | ind fuel ih =>
    cases p with
    | nil =>
      rw [h.nil hat] at hrun
      exact ⟨.finished m, .nil, fuel, Nat.le_refl fuel, hrun⟩
    | cons i p =>
      cases i with
      | command c =>
        cases happly : m.apply c with
        | finished m' =>
          obtain ⟨s', hstep, hat'⟩ := h.command hat happly
          rw [hstep] at hrun
          obtain ⟨fewer, rfl, hrun⟩ := exists_of_runFor_next hrun
          obtain ⟨o, hyields, left, hle, hleft⟩ := ih fewer (by omega) hat' hrun
          refine ⟨o, ?_, left, by omega, hleft⟩
          exact (Program.yields_command_of_finished happly).mpr hyields
        | failed fault m' =>
          rw [h.commandFails hat happly] at hrun
          refine ⟨.failed fault m', ?_, fuel, Nat.le_refl fuel, hrun⟩
          exact (Program.yields_command_of_failed happly).mpr rfl
      | loop body =>
        cases hcell : m.cell? with
        | none =>
          rw [h.loopNoCell hat hcell] at hrun
          exact ⟨_, .loopNoCell hcell, fuel, Nat.le_refl fuel, hrun⟩
        | some value =>
          by_cases hvalue : value = 0
          · subst hvalue
            obtain ⟨s', hstep, hat'⟩ := h.loopDone hat hcell
            rw [hstep] at hrun
            obtain ⟨fewer, rfl, hrun⟩ := exists_of_runFor_next hrun
            obtain ⟨o, hyields, left, hle, hleft⟩ := ih fewer (by omega) hat' hrun
            exact ⟨o, .loopDone hcell hyields, left, by omega, hleft⟩
          · obtain ⟨s', back, hstep, hbody, hback⟩ := h.loopEnter hat hcell hvalue
            rw [hstep] at hrun
            obtain ⟨fewer, rfl, hrun⟩ := exists_of_runFor_next hrun
            obtain ⟨o, hyields, left, hle, hleft⟩ := ih fewer (by omega) hbody hrun
            cases o with
            | failed fault m' => exact ⟨_, .loopFails hcell hvalue hyields, left, by omega, hleft⟩
            | finished m' =>
              obtain ⟨s'', hnext, hagain⟩ := hback m'
              rw [Outcome.follow, hnext] at hleft
              obtain ⟨again, rfl, hleft⟩ := exists_of_runFor_next hleft
              obtain ⟨o, hrest, left, hle', hleft⟩ := ih again (by omega) hagain hleft
              exact ⟨o, .loopAgain hcell hvalue hyields hrest, left, by omega, hleft⟩

/-- From a place before a piece, a run stops exactly as it does from what the piece yields. -/
theorem stopsWith_iff (h : Realizes step At) {p : Program} {m : Machine} {s : σ}
    {leave : Machine → Transition σ} (hat : At s p m leave) {r : Outcome} :
    StopsWith step (.next s) r ↔ ∃ o, p.Yields m o ∧ StopsWith step (o.follow leave) r := by
  rw [stopsWith_next_iff]
  constructor
  · rintro ⟨fuel, hrun⟩
    obtain ⟨o, hyields, left, -, hleft⟩ := h.exists_yields_of_runFor hat hrun
    exact ⟨o, hyields, left, hleft⟩
  · rintro ⟨o, hyields, hfollow⟩
    exact h.stopsWith_of_yields hyields hat hfollow

/-- A run of a whole program stops with what the program yields. -/
theorem stopsWith_iff_yields (h : Realizes step At) {p : Program} {m : Machine} {s : σ}
    (hat : At s p m fun m' ↦ .stop (.finished m')) {r : Outcome} :
    StopsWith step (.next s) r ↔ p.Yields m r := by
  have hfollow (o : Outcome) :
      o.follow (fun m' ↦ (.stop (.finished m') : Transition σ)) = .stop o := by
    cases o <;> rfl
  simp [h.stopsWith_iff hat, hfollow]

end Realizes

end Brainfuck
