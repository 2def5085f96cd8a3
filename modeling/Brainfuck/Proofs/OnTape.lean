import Brainfuck.Proofs.Effect
import Brainfuck.Proofs.Reachable
import Brainfuck.Session

/-!
Machines whose pointer is on the tape. No operation looks at the bounds of the tape
except a move, and a move looks only at where it arrives. It is enough: from a machine
whose pointer is on the tape every operation succeeds and leaves the pointer there, or it
fails for one of the reasons in `Machine.Blocked` and leaves the machine as it was
(`Machine.OnTape.apply_cases`). So the cell that a command or the test of a loop looks for
is always there, at every step of every run (`Execution.onTape_of_reaches`) and in every
session (`session_stays_onTape`).
-/

set_option autoImplicit false
set_option relaxedAutoImplicit false

namespace Brainfuck

namespace Machine

/-- The tape has `size` cells and the pointer is one of their indices. -/
structure OnTape (m : Machine) (size : Nat) : Prop where
  size_eq : m.tape.size = size
  pointer_nonneg : 0 ≤ m.pointer
  pointer_lt : m.pointer < size

/-- Why a command fails although the pointer is on the tape: there is nothing to read, or the
pointer is at the end of the tape that the move leads over. -/
inductive Blocked (m : Machine) (size : Nat) : Command → Fault → Prop
  | read (hinput : m.input = []) : Blocked m size .read .inputExhausted
  | moveLeft (hpointer : m.pointer = 0) :
      Blocked m size .moveLeft (.pointerOutOfBounds (-1) size)
  | moveRight (hpointer : m.pointer = size - 1) :
      Blocked m size .moveRight (.pointerOutOfBounds size size)

/-- The cell under the pointer by its index alone, which does not depend on the tape. -/
theorem cell?_eq_bind (m : Machine) :
    m.cell? = ((slot? m.tape.size m.pointer).map Fin.val).bind (m.tape[·]?) := by
  rw [cell?]
  cases slot? m.tape.size m.pointer with
  | none => rfl
  | some i => simp

theorem cell?_setCell {m : Machine} {i : Fin m.tape.size}
    (hi : slot? m.tape.size m.pointer = some i) (byte : UInt8) :
    (m.setCell i byte).cell? = some byte := by
  rw [cell?_eq_bind, setCell, Array.size_set, hi]
  simp

theorem toNat_add_ofInt (value : UInt8) (delta : Int) :
    ((value + UInt8.ofInt delta).toNat : Int) = (value.toNat + delta) % 256 := by
  have hofInt : (UInt8.ofInt delta).toNat = (delta % 256).toNat := by
    rw [UInt8.ofInt, UInt8.toNat_ofNat']
    omega
  rw [UInt8.toNat_add, hofInt]
  omega

namespace OnTape

variable {m : Machine} {size : Nat}

theorem pointer_lt_size (h : m.OnTape size) : m.pointer < m.tape.size := by
  rw [h.size_eq]
  exact h.pointer_lt

theorem exists_slot (h : m.OnTape size) : ∃ i, slot? m.tape.size m.pointer = some i :=
  ⟨_, slot?_of_nonneg h.pointer_nonneg h.pointer_lt_size⟩

theorem val_slot (h : m.OnTape size) {i : Fin m.tape.size}
    (hi : slot? m.tape.size m.pointer = some i) : i.val = m.pointer.toNat := by
  rw [slot?_of_nonneg h.pointer_nonneg h.pointer_lt_size] at hi
  rw [← Option.some.inj hi]

theorem exists_cell (h : m.OnTape size) : ∃ value, m.cell? = some value := by
  obtain ⟨i, hi⟩ := h.exists_slot
  exact ⟨m.tape[i], cell?_of_slot? hi⟩

theorem setCell (h : m.OnTape size) (i : Fin m.tape.size) (byte : UInt8) :
    (m.setCell i byte).OnTape size where
  size_eq := (Array.size_set i.isLt).trans h.size_eq
  pointer_nonneg := h.pointer_nonneg
  pointer_lt := h.pointer_lt

/-- What is done to the streams has no bearing on the tape. -/
theorem of_eq {m' : Machine} (h : m.OnTape size) (htape : m'.tape = m.tape)
    (hpointer : m'.pointer = m.pointer) : m'.OnTape size where
  size_eq := by rw [htape, h.size_eq]
  pointer_nonneg := by rw [hpointer]; exact h.pointer_nonneg
  pointer_lt := by rw [hpointer]; exact h.pointer_lt

theorem flush (h : m.OnTape size) : m.flush.OnTape size := by
  unfold Machine.flush
  split
  · exact h.of_eq rfl rfl
  · exact h

theorem move_cases (h : m.OnTape size) (offset : Int) :
    (∃ m', m.move offset = .finished m' ∧ m'.OnTape size) ∨
      m.move offset = .failed (.pointerOutOfBounds (m.pointer + offset) size) m ∧
        (m.pointer + offset < 0 ∨ size ≤ m.pointer + offset) := by
  unfold move
  rw [h.size_eq]
  by_cases htarget : 0 ≤ m.pointer + offset ∧ m.pointer + offset < size
  · refine .inl ⟨{ m with pointer := m.pointer + offset }, by simp only [if_pos htarget], ?_⟩
    exact ⟨h.size_eq, htarget.1, htarget.2⟩
  · refine .inr ⟨by simp only [if_neg htarget], ?_⟩
    omega

theorem add_cases (h : m.OnTape size) (delta : Int) :
    ∃ m', m.add delta = .finished m' ∧ m'.OnTape size := by
  obtain ⟨i, hi⟩ := h.exists_slot
  refine ⟨m.setCell i (m.tape[i] + UInt8.ofInt delta), ?_, h.setCell i _⟩
  simp only [add, hi]

theorem write_cases (h : m.OnTape size) : ∃ m', m.write = .finished m' ∧ m'.OnTape size := by
  obtain ⟨value, hvalue⟩ := h.exists_cell
  refine ⟨{ m with output := m.output.push value }, ?_, h.of_eq rfl rfl⟩
  simp only [write, hvalue]

theorem read_cases (h : m.OnTape size) :
    (∃ m', m.read = .finished m' ∧ m'.OnTape size) ∨
      m.input = [] ∧ m.read = .failed .inputExhausted m := by
  cases hinput : m.input with
  | nil => exact .inr ⟨rfl, by simp only [read, hinput]⟩
  | cons byte rest =>
    obtain ⟨i, hi⟩ := h.exists_slot
    refine .inl ⟨{ m.setCell i byte with input := rest }, ?_, (h.setCell i byte).of_eq rfl rfl⟩
    simp only [read, hinput, hi]

/-- A command succeeds and leaves the pointer on the tape, or it is blocked and changes
nothing. -/
theorem apply_cases (h : m.OnTape size) (c : Command) :
    (∃ m', m.apply c = .finished m' ∧ m'.OnTape size) ∨
      ∃ fault, m.apply c = .failed fault m ∧ m.Blocked size c fault := by
  have hnonneg := h.pointer_nonneg
  have hlt := h.pointer_lt
  cases c with
  | moveRight =>
    rcases h.move_cases 1 with hmoved | ⟨hfailed, hout⟩
    · exact .inl hmoved
    · have hpointer : m.pointer = size - 1 := by omega
      have htarget : m.pointer + 1 = size := by omega
      rw [htarget] at hfailed
      exact .inr ⟨_, hfailed, .moveRight hpointer⟩
  | moveLeft =>
    rcases h.move_cases (-1) with hmoved | ⟨hfailed, hout⟩
    · exact .inl hmoved
    · have hpointer : m.pointer = 0 := by omega
      rw [hpointer, Int.zero_add] at hfailed
      exact .inr ⟨_, hfailed, .moveLeft hpointer⟩
  | increment => exact .inl (h.add_cases 1)
  | decrement => exact .inl (h.add_cases (-1))
  | write => exact .inl h.write_cases
  | read =>
    rcases h.read_cases with hread | ⟨hinput, hfailed⟩
    · exact .inl hread
    · exact .inr ⟨_, hfailed, .read hinput⟩

/-- An addition of any size and sign leaves the cell at the sum modulo 256. -/
theorem exists_cell_add (h : m.OnTape size) (delta : Int) :
    ∃ value m' value', m.cell? = some value ∧ m.add delta = .finished m' ∧
      m'.cell? = some value' ∧ (value'.toNat : Int) = (value.toNat + delta) % 256 := by
  obtain ⟨i, hi⟩ := h.exists_slot
  refine ⟨m.tape[i], m.setCell i (m.tape[i] + UInt8.ofInt delta), _, cell?_of_slot? hi, ?_,
    cell?_setCell hi _, toNat_add_ofInt _ delta⟩
  simp only [add, hi]

end OnTape

end Machine

/-! ### Runs -/

namespace Execution

variable {e e' : Execution} {size : Nat}

theorem onTape_of_step (h : e.machine.OnTape size) (hstep : e.step = .next e') :
    e'.machine.OnTape size := by
  rcases step_eq_next hstep with ⟨-, hsame⟩ | ⟨c, -, happly⟩
  · rw [hsame]
    exact h
  · rcases h.apply_cases c with ⟨m', hfinished, hm'⟩ | ⟨fault, hfailed, -⟩
    · obtain rfl : m' = e'.machine := Outcome.finished.inj (hfinished.symm.trans happly)
      exact hm'
    · exact absurd (hfailed.symm.trans happly) (by simp)

/-- The pointer is on the tape at every step of a run, and the tape keeps its size. -/
theorem onTape_of_reaches (hreaches : e.Reaches e') (h : e.machine.OnTape size) :
    e'.machine.OnTape size :=
  hreaches.invariant (P := fun e ↦ e.machine.OnTape size) onTape_of_step h

/-- A run comes to its end, or it stops at a command that is blocked. Either way the machine
is the one from before the step. -/
theorem stop_cases (h : e.machine.OnTape size) {o : Outcome} (hstep : e.step = .stop o) :
    o = .finished e.machine ∨
      ∃ c fault, e.command? = some c ∧ e.machine.apply c = .failed fault e.machine ∧
        e.machine.Blocked size c fault ∧ o = .failed fault e.machine := by
  rcases step_eq_stop hstep with hdone | ⟨hcell, -⟩ | ⟨c, fault, m, hcommand, happly, ho⟩
  · exact .inl hdone
  · -- The test of a loop finds its cell.
    obtain ⟨value, hvalue⟩ := h.exists_cell
    exact absurd (hcell.symm.trans hvalue) (by simp)
  · rcases h.apply_cases c with ⟨m', hfinished, -⟩ | ⟨fault', hfailed, hblocked⟩
    · exact absurd (hfinished.symm.trans happly) (by simp)
    · obtain ⟨rfl, rfl⟩ := Outcome.failed.inj (hfailed.symm.trans happly)
      exact .inr ⟨c, fault', hcommand, hfailed, hblocked, ho⟩

end Execution

/-- The two faults of a machine whose pointer is on a tape of `size` cells. -/
def Fault.Regular (size : Nat) (fault : Fault) : Prop :=
  fault = .inputExhausted ∨ ∃ target, fault = .pointerOutOfBounds target size

theorem Machine.Blocked.regular {m : Machine} {size : Nat} {c : Command} {fault : Fault}
    (h : m.Blocked size c fault) : fault.Regular size := by
  cases h with
  | read => exact .inl rfl
  | moveLeft => exact .inr ⟨_, rfl⟩
  | moveRight => exact .inr ⟨_, rfl⟩

/-- An outcome that leaves the pointer on the tape, and that is a regular fault if it is one. -/
def Outcome.StaysOnTape (o : Outcome) (size : Nat) : Prop :=
  o.machine.OnTape size ∧ ∀ fault, o.fault? = some fault → fault.Regular size

theorem Machine.OnTape.finished {m : Machine} {size : Nat} (h : m.OnTape size) :
    (Outcome.finished m).StaysOnTape size := by
  refine ⟨h, fun fault hfault ↦ ?_⟩
  simp [Outcome.fault?] at hfault

theorem Machine.OnTape.failed {m : Machine} {size : Nat} {fault : Fault} (h : m.OnTape size)
    (hfault : fault.Regular size) : (Outcome.failed fault m).StaysOnTape size := by
  refine ⟨h, fun fault' hfault' ↦ ?_⟩
  obtain rfl : fault = fault' := Option.some.inj hfault'
  exact hfault

/-- A run that stops stays on the tape. -/
theorem Machine.OnTape.execute {m : Machine} {size : Nat} (h : m.OnTape size) {fuel : Nat}
    {p : Program} {o : Outcome} (hexecute : execute fuel p m = some o) : o.StaysOnTape size := by
  obtain ⟨last, r, hreaches, hstop, rfl⟩ := exists_execute_iff_reaches.mp ⟨fuel, hexecute⟩
  have hlast := Execution.onTape_of_reaches hreaches h
  rcases Execution.stop_cases hlast hstop with rfl | ⟨c, fault, -, -, hblocked, rfl⟩
  · exact hlast.flush.finished
  · exact hlast.flush.failed hblocked.regular

/-! ### Sessions -/

/-- The actions that leave the pointer and the tape to the machine; what is fed to it are
bytes. -/
inductive Action.Ordinary : Action → Prop
  | move (offset : Int) : Ordinary (.move offset)
  | add (delta : Int) : Ordinary (.add delta)
  | write : Ordinary .write
  | read : Ordinary .read
  | cell : Ordinary .cell
  | feed (bytes : List UInt8) : Ordinary (.feed (bytes.map fun b ↦ (b.toNat : Int)))
  | execute (p : Program) : Ordinary (.execute p)

namespace Machine

/-- A session leads from one machine to another: each action is performed on the machine as
the one before left it, whether that one failed or not. -/
inductive Session (m : Machine) : List Action → Machine → Prop
  | start : Session m [] m
  | perform {actions : List Action} {m' m'' : Machine} (hbefore : Session m actions m')
      (a : Action) (fuel : Nat) (hperform : (m'.perform fuel a).map Report.machine = some m'') :
      Session m (actions ++ [a]) m''

/-- The machines that a session shows: those between its actions, and those at the steps of
a run with which it goes on, whether or not that run ever stops. -/
inductive Shows (m : Machine) (actions : List Action) : Machine → Prop
  | between {m' : Machine} (hsession : m.Session actions m') : Shows m actions m'
  | running {m' : Machine} {p : Program} {e : Execution} (hsession : m.Session actions m')
      (hreaches : (Execution.start p m').Reaches e) : Shows m actions e.machine

end Machine

/-- A report whose machine has its pointer on the tape, and whose failure is a regular fault
if there is one. -/
def Report.StaysOnTape (r : Report) (size : Nat) : Prop :=
  r.machine.OnTape size ∧
    ∀ failure, r.failure = some failure → ∃ fault, failure = .fault fault ∧ fault.Regular size

theorem Outcome.StaysOnTape.report {o : Outcome} {size : Nat} (h : o.StaysOnTape size) :
    (Report.ofOutcome o).StaysOnTape size := by
  cases o with
  | finished m =>
    refine ⟨h.1, fun failure hfailure ↦ ?_⟩
    simp [Report.ofOutcome, Report.done] at hfailure
  | failed fault m =>
    refine ⟨h.1, fun failure hfailure ↦ ⟨fault, ?_, h.2 fault rfl⟩⟩
    exact (Option.some.inj hfailure).symm

namespace Machine

variable {m m' : Machine} {size : Nat}

theorem OnTape.inspect (h : m.OnTape size) : m.inspect.StaysOnTape size := by
  obtain ⟨value, hvalue⟩ := h.exists_cell
  have hinspect : m.inspect = ⟨m, none, some value⟩ := by
    simp only [Machine.inspect, hvalue]
  rw [hinspect]
  exact ⟨h, fun failure hfailure ↦ by simp at hfailure⟩

/-- What one action of a session does. -/
theorem OnTape.perform (h : m.OnTape size) {a : Action} (ha : a.Ordinary) {fuel : Nat}
    {report : Report} (hperform : m.perform fuel a = some report) : report.StaysOnTape size := by
  cases ha with
  | move offset =>
    obtain rfl : Report.ofOutcome (m.move offset) = report := Option.some.inj hperform
    rcases h.move_cases offset with ⟨m', hmove, hm'⟩ | ⟨hmove, -⟩
    · rw [hmove]
      exact hm'.finished.report
    · rw [hmove]
      exact (h.failed (.inr ⟨_, rfl⟩)).report
  | add delta =>
    obtain rfl : Report.ofOutcome (m.add delta) = report := Option.some.inj hperform
    obtain ⟨m', hadd, hm'⟩ := h.add_cases delta
    rw [hadd]
    exact hm'.finished.report
  | write =>
    obtain rfl : Report.ofOutcome m.write = report := Option.some.inj hperform
    obtain ⟨m', hwrite, hm'⟩ := h.write_cases
    rw [hwrite]
    exact hm'.finished.report
  | read =>
    obtain rfl : Report.ofOutcome m.read = report := Option.some.inj hperform
    rcases h.read_cases with ⟨m', hread, hm'⟩ | ⟨-, hread⟩
    · rw [hread]
      exact hm'.finished.report
    · rw [hread]
      exact (h.failed (.inl rfl)).report
  | cell =>
    obtain rfl : m.inspect = report := Option.some.inj hperform
    exact h.inspect
  | feed bytes =>
    have hfeed : m.feed (bytes.map fun b ↦ (b.toNat : Int)) =
        .done { m with input := m.input ++ bytes } := by
      simp only [feed, Text.Byte.ofInts?_map_toNat]
    obtain rfl : m.feed (bytes.map fun b ↦ (b.toNat : Int)) = report := Option.some.inj hperform
    rw [hfeed]
    exact ⟨h.of_eq rfl rfl, fun failure hfailure ↦ by simp [Report.done] at hfailure⟩
  | execute p =>
    obtain ⟨o, hexecute, rfl⟩ := Option.map_eq_some_iff.mp hperform
    exact (h.execute hexecute).report

/-- What a whole session does. -/
theorem OnTape.session (h : m.OnTape size) {actions : List Action}
    (hordinary : ∀ a ∈ actions, a.Ordinary) (hsession : m.Session actions m') :
    m'.OnTape size := by
  induction hsession with
  | start => exact h
  | perform _ a fuel hperform ih =>
    have hm' := ih fun a' ha' ↦ hordinary a' (List.mem_append_left _ ha')
    have ha : a.Ordinary := hordinary a (by simp)
    obtain ⟨report, hreport, rfl⟩ := Option.map_eq_some_iff.mp hperform
    exact (hm'.perform ha hreport).1

theorem OnTape.shows (h : m.OnTape size) {actions : List Action}
    (hordinary : ∀ a ∈ actions, a.Ordinary) (hshows : m.Shows actions m') : m'.OnTape size := by
  cases hshows with
  | between hsession => exact h.session hordinary hsession
  | running hsession hreaches =>
    exact Execution.onTape_of_reaches hreaches (h.session hordinary hsession)

end Machine

/-- A session that starts with its pointer on a tape of any size has it there ever after: between
its actions, after failures too, and at every step of every run, also of one that never
stops. The tape keeps its size and its cells are bytes, an addition of any size leaves the
sum modulo 256, and there is always a cell to look at, so the only failures are faults of
reading without input and of moving over the end of the tape. -/
theorem session_stays_onTape {m : Machine} {size : Nat} (hm : m.OnTape size)
    {actions : List Action} (hordinary : ∀ a ∈ actions, a.Ordinary) :
    (∀ m', m.Shows actions m' → m'.OnTape size ∧ (∀ cell ∈ m'.tape, cell.toNat ≤ 255) ∧
        ∃ value, m'.cell? = some value) ∧
      (∀ m', m.Session actions m' → ∀ delta, ∃ value m'' value', m'.cell? = some value ∧
        m'.add delta = .finished m'' ∧ m''.cell? = some value' ∧
        (value'.toNat : Int) = (value.toNat + delta) % 256) ∧
      ∀ m', m.Session actions m' → ∀ a : Action, a.Ordinary → ∀ fuel report,
        m'.perform fuel a = some report → report.failure = none ∨
          report.failure = some (.fault .inputExhausted) ∨
          ∃ target, report.failure = some (.fault (.pointerOutOfBounds target size)) := by
  refine ⟨fun m' hshows ↦ ?_, fun m' hsession delta ↦ ?_, ?_⟩
  · have hm' := hm.shows hordinary hshows
    exact ⟨hm', fun cell _ ↦ Nat.le_of_lt_succ cell.toNat_lt, hm'.exists_cell⟩
  · exact (hm.session hordinary hsession).exists_cell_add delta
  · intro m' hsession a ha fuel report hperform
    have hreport := (hm.session hordinary hsession).perform ha hperform
    cases hfailure : report.failure with
    | none => exact .inl rfl
    | some failure =>
      obtain ⟨fault, rfl, rfl | ⟨target, rfl⟩⟩ := hreport.2 failure hfailure
      · exact .inr (.inl rfl)
      · exact .inr (.inr ⟨target, rfl⟩)

/-- A session on two cells: a move over the end of the tape, a large subtraction, a read
without input, and a run that never stops. -/
theorem session_stays_onTape_two_cells :
    (⟨#[0, 0], 1, [], #[], [], true⟩ : Machine).OnTape 2 ∧
      (∀ a ∈ [Action.move 7, .add (-300), .read], a.Ordinary) ∧
      (⟨#[0, 0], 1, [], #[], [], true⟩ : Machine).Session [.move 7, .add (-300), .read]
        ⟨#[0, 212], 1, [], #[], [], true⟩ ∧
      ∀ e, (Execution.start [.loop []] ⟨#[0, 212], 1, [], #[], [], true⟩).Reaches e →
        e.machine.OnTape 2 := by
  have hm : (⟨#[0, 0], 1, [], #[], [], true⟩ : Machine).OnTape 2 :=
    ⟨rfl, by decide, by decide⟩
  have hordinary : ∀ a ∈ [Action.move 7, .add (-300), .read], a.Ordinary := by
    simp [Action.Ordinary.move, Action.Ordinary.add, Action.Ordinary.read]
  have hsession : (⟨#[0, 0], 1, [], #[], [], true⟩ : Machine).Session
      [.move 7, .add (-300), .read] ⟨#[0, 212], 1, [], #[], [], true⟩ :=
    (Machine.Session.start.perform (.move 7) 0 rfl |>.perform (.add (-300)) 0 rfl).perform
      .read 0 rfl
  refine ⟨hm, hordinary, hsession, fun e hreaches ↦ ?_⟩
  exact ((session_stays_onTape hm hordinary).1 _ (.running hsession hreaches)).1

end Brainfuck
