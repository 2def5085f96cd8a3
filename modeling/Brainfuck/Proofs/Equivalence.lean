import Brainfuck.Proofs.Composition

/-!
Programs that cannot be told apart. Two programs are equivalent if, from every machine whose
pointer is on its tape, both end in the same ways (`Program.Equivalent`); since a program
ends in one way at most, both go on for ever from the same machines then. What is put
around equivalent programs cannot tell them apart either (`Program.Equivalent.fill`):
sequences resume from the same outcomes, and a loop makes the same passes.

A loop behind a loop is passed over and a loop alone in a loop adds nothing, since a loop
leaves a zero. Commands that add to the cell add their sum to it
(`Program.yields_adds_iff`), so they do nothing if the sum is a multiple of 256.
-/

set_option autoImplicit false
set_option relaxedAutoImplicit false

namespace Brainfuck

theorem Outcome.eq_of_ending_eq {o o' : Outcome} (hending : o.ending = o'.ending)
    (hflushes : o.machine.flushes = o'.machine.flushes)
    (hflushable : o.machine.flushable = o'.machine.flushable) : o = o' := by
  have hfault : o.fault? = o'.fault? := congrArg Ending.fault? hending
  have hmachine : o.machine = o'.machine := by
    obtain ⟨-, htape, hpointer, hinput, houtput⟩ := Ending.mk.inj hending
    cases hm : o.machine
    cases hm' : o'.machine
    simp_all
  cases o with
  | finished m =>
    cases o' with
    | finished m' => exact congrArg Outcome.finished hmachine
    | failed fault' m' => simp [Outcome.fault?] at hfault
  | failed fault m =>
    cases o' with
    | finished m' => simp [Outcome.fault?] at hfault
    | failed fault' m' =>
      obtain rfl : fault = fault' := Option.some.inj hfault
      exact congrArg (Outcome.failed fault) hmachine

namespace Program

/-- From every machine whose pointer is on its tape, both programs end in the same ways. -/
def Equivalent (a b : Program) : Prop :=
  ∀ m : Machine, 0 ≤ m.pointer → m.pointer < m.tape.size →
    ∀ ending, a.EndsWith m ending ↔ b.EndsWith m ending

variable {a b c d : Program} {m m' : Machine} {o : Outcome} {size : Nat}

theorem Equivalent.yields (h : a.Equivalent b) (hm : m.OnTape size) (hyields : a.Yields m o) :
    b.Yields m o := by
  have hends : a.EndsWith m o.ending := endsWith_iff.mpr ⟨o, hyields, rfl⟩
  have hends' := (h m hm.pointer_nonneg hm.pointer_lt_size _).mp hends
  obtain ⟨o', hyields', hending⟩ := endsWith_iff.mp hends'
  -- The ending leaves out the record of flushes, which neither program adds to.
  have hflushes := hyields.flushes_eq
  have hflushes' := hyields'.flushes_eq
  have hsame : o' = o := Outcome.eq_of_ending_eq hending
    (hflushes'.1.trans hflushes.1.symm) (hflushes'.2.trans hflushes.2.symm)
  rwa [← hsame]

theorem Equivalent.refl (a : Program) : a.Equivalent a := by
  intro m _ _ ending
  rfl

theorem Equivalent.symm (h : a.Equivalent b) : b.Equivalent a := by
  intro m hnonneg hlt ending
  exact (h m hnonneg hlt ending).symm

theorem Equivalent.trans (h : a.Equivalent b) (h' : b.Equivalent c) : a.Equivalent c := by
  intro m hnonneg hlt ending
  exact (h m hnonneg hlt ending).trans (h' m hnonneg hlt ending)

/-- Programs are equivalent if their structure yields the same. -/
theorem equivalent_iff : a.Equivalent b ↔
    ∀ (m : Machine) (size : Nat), m.OnTape size → ∀ o, a.Yields m o ↔ b.Yields m o := by
  constructor
  · intro h m size hm o
    exact ⟨h.yields hm, h.symm.yields hm⟩
  · intro h m hnonneg hlt ending
    simp only [endsWith_iff, h m m.tape.size ⟨rfl, hnonneg, hlt⟩]

/-- It is enough that each program yields what the other does. -/
theorem Equivalent.of_yields
    (h : ∀ (m : Machine) (size : Nat), m.OnTape size → ∀ o, a.Yields m o → b.Yields m o)
    (h' : ∀ (m : Machine) (size : Nat), m.OnTape size → ∀ o, b.Yields m o → a.Yields m o) :
    a.Equivalent b :=
  equivalent_iff.mpr fun m size hm o ↦ ⟨h m size hm o, h' m size hm o⟩

/-! ### Congruence -/

theorem Equivalent.yields_append (h : a.Equivalent b) (h' : c.Equivalent d) (hm : m.OnTape size)
    (hyields : (a ++ c).Yields m o) : (b ++ d).Yields m o := by
  obtain ⟨r, ha, hc⟩ := yields_append_iff.mp hyields
  refine yields_append_iff.mpr ⟨r, h.yields hm ha, ?_⟩
  cases r with
  | finished m' => exact h'.yields (ha.onTape hm) hc
  | failed fault m' => exact hc

theorem Equivalent.append (h : a.Equivalent b) (h' : c.Equivalent d) :
    Equivalent (a ++ c) (b ++ d) :=
  .of_yields (fun _ _ hm _ ↦ h.yields_append h' hm)
    fun _ _ hm _ ↦ h.symm.yields_append h'.symm hm

theorem Equivalent.yields_loop (h : a.Equivalent b) (hm : m.OnTape size)
    (hyields : Yields [.loop a] m o) : Yields [.loop b] m o := by
  -- On the passes: every one of them starts with the pointer on the tape.
  generalize hp : [Instruction.loop a] = p at hyields
  induction hyields with
  | nil => cases hp
  | command => cases hp
  | commandFails => cases hp
  | loopNoCell hcell =>
    cases hp
    exact .loopNoCell hcell
  | loopDone hcell hnil =>
    cases hp
    exact .loopDone hcell hnil
  | loopAgain hcell hvalue hbody _ _ ih =>
    cases hp
    exact .loopAgain hcell hvalue (h.yields hm hbody) (ih (hbody.onTape hm) rfl)
  | loopFails hcell hvalue hbody =>
    cases hp
    exact .loopFails hcell hvalue (h.yields hm hbody)

theorem Equivalent.loop (h : a.Equivalent b) : Equivalent [.loop a] [.loop b] :=
  .of_yields (fun _ _ hm _ ↦ h.yields_loop hm) fun _ _ hm _ ↦ h.symm.yields_loop hm

/-- A program with a gap between two of its instructions, at the top or inside loops. -/
inductive Context where
  | gap (before after : Program)
  | loop (before : Program) (inner : Context) (after : Program)

namespace Context

/-- The program with the gap filled. -/
def fill : Context → Program → Program
  | .gap before after, p => before ++ p ++ after
  | .loop before inner after, p => before ++ .loop (inner.fill p) :: after

end Context

/-- Replacing a piece of a program, at any depth, by an equivalent one gives an equivalent
program. -/
theorem Equivalent.fill (h : a.Equivalent b) (context : Context) :
    (context.fill a).Equivalent (context.fill b) := by
  induction context with
  | gap before after => exact ((Equivalent.refl before).append h).append (.refl after)
  | loop before inner after ih => exact (Equivalent.refl before).append (ih.loop.append (.refl after))

/-! ### Loops -/

/-- A loop right behind a loop is never entered. -/
theorem loop_loop_equivalent (x y : Program) : Equivalent [.loop x, .loop y] [.loop x] := by
  refine equivalent_iff.mpr fun m size hm o ↦ ?_
  rw [yields_cons_iff]
  constructor
  · rintro ⟨r, hx, hy⟩
    cases r with
    | finished m' =>
      have hnil := (yields_loop_of_zero hx.cell?_of_loop).mp hy
      rwa [yields_nil_iff.mp hnil]
    | failed fault m' =>
      cases hy
      exact hx
  · intro hx
    refine ⟨o, hx, ?_⟩
    cases o with
    | finished m' => exact (yields_loop_of_zero hx.cell?_of_loop).mpr .nil
    | failed fault m' => rfl

/-- A loop whose body is a loop makes one pass at most. -/
theorem loop_nested_equivalent (x : Program) : Equivalent [.loop [.loop x]] [.loop x] := by
  refine equivalent_iff.mpr fun m size hm o ↦ ?_
  obtain ⟨value, hvalue⟩ := hm.exists_cell
  by_cases hzero : value = 0
  · subst hzero
    rw [yields_loop_of_zero hvalue, yields_loop_of_zero hvalue]
  · rw [yields_loop_of_ne_zero hvalue hzero]
    exact equivalent_iff.mp (loop_loop_equivalent x [.loop x]) m size hm o

end Program

/-! ### Adding -/

/-- What commands add to the cell in all. -/
def Command.total : List Command → Int
  | [] => 0
  | c :: cs => c.delta?.getD 0 + total cs

theorem Command.total_replicate_increment (n : Nat) :
    total (List.replicate n .increment) = n := by
  induction n with
  | zero => rfl
  | succ n ih =>
    rw [List.replicate_succ, total, ih]
    simp only [delta?, Option.getD_some]
    omega

namespace Machine.OnTape

variable {m : Machine} {size : Nat}

theorem add_of_dvd (h : m.OnTape size) {delta : Int} (hdvd : 256 ∣ delta) :
    m.add delta = .finished m := by
  obtain ⟨i, hi⟩ := h.exists_slot
  have hzero : UInt8.ofInt delta = 0 := by
    have hmod : delta % 2 ^ 8 = 0 := by omega
    rw [UInt8.ofInt, hmod]
    rfl
  simp only [Machine.add, hi, hzero, UInt8.add_zero, Machine.setCell]
  congr 2
  exact Array.set_getElem_self i.isLt

/-- Two additions, one after the other, are one. -/
theorem add_add (h : m.OnTape size) (first second : Int) :
    ∃ m', m.add first = .finished m' ∧ m'.OnTape size ∧
      m'.add second = m.add (first + second) := by
  obtain ⟨i, hi⟩ := h.exists_slot
  have hm' := h.setCell i (m.tape[i] + UInt8.ofInt first)
  obtain ⟨⟨j, hlt⟩, hj⟩ := hm'.exists_slot
  have hij : i.val = j := (h.val_slot hi).trans (hm'.val_slot hj).symm
  subst hij
  refine ⟨_, by simp only [Machine.add, hi], hm', ?_⟩
  simp only [Machine.add, hi, hj]
  simp [Machine.setCell, UInt8.ofInt_add, UInt8.add_assoc]

end Machine.OnTape

namespace Program

variable {m : Machine} {o : Outcome} {size : Nat}

/-- Commands that add yield the addition of their sum. -/
theorem yields_adds_iff (hm : m.OnTape size) {cs : List Command}
    (hadds : ∀ c ∈ cs, c.delta? ≠ none) :
    Yields (cs.map .command) m o ↔ m.add (Command.total cs) = o := by
  induction cs generalizing m with
  | nil =>
    rw [Command.total, hm.add_of_dvd (Int.dvd_zero 256), List.map_nil, yields_nil_iff, eq_comm]
  | cons c cs ih =>
    obtain ⟨delta, hdelta⟩ := Option.ne_none_iff_exists'.mp (hadds c List.mem_cons_self)
    obtain ⟨m', hadd, hm', hsum⟩ := hm.add_add delta (Command.total cs)
    have happly : m.apply c = .finished m' := (m.apply_of_delta? hdelta).trans hadd
    have hrest := ih hm' fun c' hc' ↦ hadds c' (List.mem_cons_of_mem c hc')
    rw [Command.total, hdelta, Option.getD_some, ← hsum, ← hrest, List.map_cons,
      yields_command_of_finished happly]

/-- Commands whose additions cancel modulo 256 do nothing. -/
theorem adds_equivalent_nil {cs : List Command} (hadds : ∀ c ∈ cs, c.delta? ≠ none)
    (hdvd : 256 ∣ Command.total cs) : Equivalent (cs.map .command) [] := by
  refine equivalent_iff.mpr fun m size hm o ↦ ?_
  rw [yields_adds_iff hm hadds, hm.add_of_dvd hdvd, yields_nil_iff, eq_comm]

end Program

/-- A loop at the end of a program leaves a zero in the cell. -/
theorem cell?_of_execute_append_loop {fuel : Nat} {p body : Program} {m m' : Machine}
    (hexecute : execute fuel (p ++ [.loop body]) m = some (.finished m')) :
    m'.cell? = some 0 := by
  obtain ⟨o, hyields, ho⟩ := exists_execute_iff.mp ⟨fuel, hexecute⟩
  cases o with
  | finished last =>
    obtain rfl : last.flush = m' := Outcome.finished.inj ho
    rw [Machine.cell?_flush]
    exact hyields.cell?_of_append_loop
  | failed fault last => cases ho

/-- Equivalence of programs is a congruence: it is an equivalence, and replacing a piece of a
program at any depth by an equivalent one gives an equivalent program. A loop behind a loop
can be left out, and so can a loop around a loop; an increment and a decrement cancel in
either order, and so do 256 increments. A program whose last instruction is a loop leaves a
zero under the pointer when it comes to a good end. -/
theorem equivalence_is_congruence :
    Equivalence Program.Equivalent ∧
      (∀ a b : Program, a.Equivalent b → ∀ context : Program.Context,
        (context.fill a).Equivalent (context.fill b)) ∧
      (∀ x y : Program, Program.Equivalent [.loop x, .loop y] [.loop x]) ∧
      (∀ x : Program, Program.Equivalent [.loop [.loop x]] [.loop x]) ∧
      Program.Equivalent [.command .increment, .command .decrement] [] ∧
      Program.Equivalent [.command .decrement, .command .increment] [] ∧
      Program.Equivalent (List.replicate 256 (.command .increment)) [] ∧
      ∀ (fuel : Nat) (p body : Program) (m m' : Machine),
        execute fuel (p ++ [.loop body]) m = some (.finished m') → m'.cell? = some 0 := by
  refine ⟨⟨.refl, .symm, .trans⟩, fun a b h context ↦ h.fill context,
    Program.loop_loop_equivalent, Program.loop_nested_equivalent, ?_, ?_, ?_, ?_⟩
  · have hadds : ∀ c ∈ [Command.increment, .decrement], c.delta? ≠ none := by decide
    exact Program.adds_equivalent_nil hadds (by decide)
  · have hadds : ∀ c ∈ [Command.decrement, .increment], c.delta? ≠ none := by decide
    exact Program.adds_equivalent_nil hadds (by decide)
  · have hadds : ∀ c ∈ List.replicate 256 Command.increment, c.delta? ≠ none := by
      intro c hc
      rw [List.eq_of_mem_replicate hc]
      decide
    have hdvd : 256 ∣ Command.total (List.replicate 256 .increment) := by
      rw [Command.total_replicate_increment]
      decide
    have hnil := Program.adds_equivalent_nil hadds hdvd
    rwa [List.map_replicate] at hnil
  · intro fuel p body m m' hexecute
    exact cell?_of_execute_append_loop hexecute

/-- Two commands that cancel are taken out of the body of a loop, and the loop leaves a zero. -/
theorem equivalence_is_congruence_in_loop :
    Program.Equivalent
        [.loop [.command .increment, .command .decrement, .command .decrement]]
        [.loop [.command .decrement]] ∧
      ∃ m', execute 6 ([.command .increment] ++ [.loop [.command .decrement]])
          ⟨#[0], 0, [], #[], [], true⟩ = some (.finished m') ∧ m'.cell? = some 0 := by
  obtain ⟨-, hfill, -, -, hcancel, -, -, hzero⟩ := equivalence_is_congruence
  have hexecute : execute 6 ([.command .increment] ++ [.loop [.command .decrement]])
      ⟨#[0], 0, [], #[], [], true⟩ = some (.finished ⟨#[0], 0, [], #[], [0], true⟩) := rfl
  exact ⟨hfill _ _ hcancel (.loop [] (.gap [] [.command .decrement]) []),
    _, hexecute, hzero _ _ _ _ _ hexecute⟩

end Brainfuck
