import Brainfuck.Proofs.Equivalence
import Mathlib.Data.Nat.Find

/-!
Commands in a row. A program without loops carries its commands out one after another, up to the
first that fails (`exists_execute_commands_iff`), so a run of moves and additions can be
followed by counting. The pointer is where the displacement of the commands so far has put
it, and a cell has gained the increments less the decrements that were issued while the
pointer was there (`Machine.Tallies`). Tallies of one row and of the next add up
(`Machine.Tallies.append`).

The run goes through if the pointer is on the tape after every command, and otherwise fails
at the first command after which it would not be (`straight_line_follows_displacement`). What
counts are the places on the way and not the place where all moves together would lead.
-/

set_option autoImplicit false
set_option relaxedAutoImplicit false

namespace Brainfuck

/-! ### Rows of commands -/

theorem Machine.applyAll_append {m m' : Machine} {cs : List Command}
    (h : m.applyAll cs = .finished m') (ds : List Command) :
    m.applyAll (cs ++ ds) = m'.applyAll ds := by
  induction cs generalizing m with
  | nil =>
    obtain rfl : m = m' := Outcome.finished.inj h
    rfl
  | cons c cs ih =>
    cases happly : m.apply c with
    | finished m₁ =>
      simp only [applyAll, happly] at h
      simp only [List.cons_append, applyAll, happly]
      exact ih h
    | failed fault m₁ => simp [applyAll, happly] at h

/-- Without loops the structure of a program is the row of its commands. -/
theorem Program.yields_commands_iff {cs : List Command} {m : Machine} {o : Outcome} :
    Yields (cs.map .command) m o ↔ m.applyAll cs = o := by
  induction cs generalizing m with
  | nil => rw [List.map_nil, yields_nil_iff, Machine.applyAll, eq_comm]
  | cons c cs ih =>
    rw [List.map_cons]
    cases happly : m.apply c with
    | finished m' =>
      simp only [yields_command_of_finished happly, Machine.applyAll, happly, ih]
    | failed fault m' =>
      simp only [yields_command_of_failed happly, Machine.applyAll, happly, eq_comm]

theorem exists_execute_commands_iff {cs : List Command} {m : Machine} {r : Outcome} :
    (∃ fuel, execute fuel (cs.map .command) m = some r) ↔
      (m.applyAll cs).map Machine.flush = r := by
  simp only [exists_execute_iff, Program.yields_commands_iff, exists_eq_left']

/-! ### Counting -/

namespace Command

/-- How far commands move the pointer in all. -/
def displacement : List Command → Int
  | [] => 0
  | c :: cs => c.offset?.getD 0 + displacement cs

theorem displacement_append (cs ds : List Command) :
    displacement (cs ++ ds) = displacement cs + displacement ds := by
  induction cs with
  | nil => simp [displacement]
  | cons c cs ih => rw [List.cons_append, displacement, displacement, ih, Int.add_assoc]

/-- How often a command is issued while the pointer, which starts at `pointer`, is at `j`. -/
def issuedAt (c : Command) (cs : List Command) (pointer j : Int) : Nat :=
  (List.range cs.length).countP fun k ↦
    cs[k]? = some c ∧ pointer + displacement (cs.take k) = j

theorem issuedAt_append (c : Command) (cs ds : List Command) (pointer j : Int) :
    issuedAt c (cs ++ ds) pointer j =
      issuedAt c cs pointer j + issuedAt c ds (pointer + displacement cs) j := by
  unfold issuedAt
  rw [List.length_append, List.range_add, List.countP_append, List.countP_map]
  congr 1
  · refine List.countP_congr fun k hk ↦ ?_
    have hlt : k < cs.length := List.mem_range.mp hk
    rw [List.getElem?_append_left hlt, List.take_append_of_le_length (Nat.le_of_lt hlt)]
  · refine List.countP_congr fun k _ ↦ ?_
    simp only [Function.comp_apply, List.getElem?_append_right (Nat.le_add_right _ _),
      Nat.add_sub_cancel_left, List.take_length_add_append, displacement_append, Int.add_assoc]

theorem issuedAt_singleton (c c' : Command) (pointer j : Int) :
    issuedAt c [c'] pointer j = if c' = c ∧ pointer = j then 1 else 0 := by
  simp [issuedAt, displacement]

/-- What a single command adds, it adds where the pointer is. -/
theorem issuedAt_singleton_sub (c : Command) (pointer j : Int) :
    (issuedAt .increment [c] pointer j : Int) - issuedAt .decrement [c] pointer j =
      if pointer = j then c.delta?.getD 0 else 0 := by
  by_cases hj : pointer = j
  · cases c <;> simp [issuedAt_singleton, delta?, hj]
  · simp [issuedAt_singleton, hj]

end Command

namespace Machine

variable {m m' m'' : Machine} {size : Nat} {cs ds : List Command} {c : Command}

/-- From `m` to `m'` the pointer has moved by the displacement of the commands, each cell has
gained the increments less the decrements that were issued while the pointer was there, modulo
256, and the streams are as they were. -/
structure Tallies (m : Machine) (cs : List Command) (m' : Machine) : Prop where
  pointer_eq : m'.pointer = m.pointer + Command.displacement cs
  size_eq : m'.tape.size = m.tape.size
  cell_eq (j : Nat) : j < m.tape.size → ∃ old new, m.tape[j]? = some old ∧
    m'.tape[j]? = some new ∧ (new.toNat : Int) =
      (old.toNat + Command.issuedAt .increment cs m.pointer j -
        Command.issuedAt .decrement cs m.pointer j) % 256
  input_eq : m'.input = m.input
  output_eq : m'.output = m.output

theorem Tallies.nil (m : Machine) : m.Tallies [] m where
  pointer_eq := (Int.add_zero _).symm
  size_eq := rfl
  cell_eq j hj := by
    refine ⟨m.tape[j], m.tape[j], Array.getElem?_eq_getElem hj, Array.getElem?_eq_getElem hj, ?_⟩
    have hlt : m.tape[j].toNat < 256 := m.tape[j].toNat_lt
    simp only [Command.issuedAt, List.length_nil, List.range_zero, List.countP_nil]
    omega
  input_eq := rfl
  output_eq := rfl

/-- Tallies add up along a row of commands. -/
theorem Tallies.append (h : m.Tallies cs m') (h' : m'.Tallies ds m'') :
    m.Tallies (cs ++ ds) m'' where
  pointer_eq := by
    rw [h'.pointer_eq, h.pointer_eq, Command.displacement_append, Int.add_assoc]
  size_eq := h'.size_eq.trans h.size_eq
  cell_eq j hj := by
    obtain ⟨old, mid, hold, hmid, hfirst⟩ := h.cell_eq j hj
    obtain ⟨mid', new, hmid', hnew, hsecond⟩ := h'.cell_eq j (by rw [h.size_eq]; exact hj)
    obtain rfl : mid = mid' := Option.some.inj (hmid.symm.trans hmid')
    refine ⟨old, new, hold, hnew, ?_⟩
    rw [h.pointer_eq] at hsecond
    simp only [Command.issuedAt_append]
    omega
  input_eq := h'.input_eq.trans h.input_eq
  output_eq := h'.output_eq.trans h.output_eq

theorem Tallies.flush (h : m.Tallies cs m') : m.Tallies cs m'.flush := by
  rw [flush_eq]
  exact ⟨h.pointer_eq, h.size_eq, h.cell_eq, h.input_eq, h.output_eq⟩

/-- What a single move or addition does. -/
theorem Effect.tallies (h : m.Effect c (.finished m')) (hm : m.OnTape size)
    (hc : c ≠ .write ∧ c ≠ .read) : m.Tallies [c] m' := by
  have hsame {j : Nat} (hj : j < m.tape.size) : m.tape[j]? = some m.tape[j] :=
    Array.getElem?_eq_getElem hj
  cases h with
  | @move _ offset hoffset htarget =>
    have hdelta : c.delta? = none := by
      rcases Command.offset?_cases hoffset with ⟨rfl, -⟩ | ⟨rfl, -⟩ <;> rfl
    refine ⟨by simp [Command.displacement, hoffset], rfl, fun j hj ↦ ?_, rfl, rfl⟩
    have hgain := Command.issuedAt_singleton_sub c m.pointer j
    rw [hdelta, Option.getD_none, ite_self] at hgain
    have hlt : m.tape[j].toNat < 256 := m.tape[j].toNat_lt
    exact ⟨_, _, hsame hj, hsame hj, by omega⟩
  | @add _ delta i value hdelta hslot hcell =>
    have hoffset : c.offset? = none := by
      rcases Command.delta?_cases hdelta with ⟨rfl, -⟩ | ⟨rfl, -⟩ <;> rfl
    refine ⟨by simp [Command.displacement, hoffset, setCell], Array.size_set i.isLt,
      fun j hj ↦ ?_, rfl, rfl⟩
    have hgain := Command.issuedAt_singleton_sub c m.pointer j
    have hval := hm.val_slot hslot
    have hnonneg := hm.pointer_nonneg
    by_cases hpointer : m.pointer = j
    · obtain rfl : i.val = j := by omega
      obtain rfl := Option.some.inj (hcell.symm.trans (cell?_of_slot? hslot))
      rw [if_pos hpointer, hdelta, Option.getD_some] at hgain
      have hnew := toNat_add_ofInt m.tape[i] delta
      refine ⟨_, _, hsame hj, Array.getElem?_set_self i.isLt, ?_⟩
      rw [hnew, ← hgain]
      exact congrArg (· % 256) (Int.add_sub_assoc _ _ _).symm
    · rw [if_neg hpointer] at hgain
      have hlt : m.tape[j].toNat < 256 := m.tape[j].toNat_lt
      have hset : (m.tape.set i (value + UInt8.ofInt delta))[j]? = m.tape[j]? :=
        Array.getElem?_set_ne i.isLt (by omega)
      exact ⟨_, _, hsame hj, hset.trans (hsame hj), by omega⟩
  | write => exact absurd rfl hc.1
  | read => exact absurd rfl hc.2

/-! ### The places on the way -/

/-- The pointer would be on the tape after the first `k` commands. -/
def OnTapeAfter (m : Machine) (cs : List Command) (k : Nat) : Prop :=
  0 ≤ m.pointer + Command.displacement (cs.take k) ∧
    m.pointer + Command.displacement (cs.take k) < m.tape.size

instance (m : Machine) (cs : List Command) (k : Nat) : Decidable (m.OnTapeAfter cs k) :=
  inferInstanceAs (Decidable (_ ∧ _))

theorem OnTapeAfter.behind {k : Nat} (h : m.OnTapeAfter (c :: cs) (k + 1))
    (hpointer : m'.pointer = m.pointer + Command.displacement [c])
    (hsize : m'.tape.size = m.tape.size) : m'.OnTapeAfter cs k := by
  unfold OnTapeAfter at h ⊢
  rw [hpointer, hsize, Int.add_assoc, ← Command.displacement_append]
  exact h

/-- A single move or addition succeeds if the pointer would be on the tape after it. -/
theorem OnTape.apply_of_onTapeAfter (hm : m.OnTape size) (hc : c ≠ .write ∧ c ≠ .read)
    (hafter : m.OnTapeAfter [c] 1) :
    ∃ m', m.apply c = .finished m' ∧ m'.OnTape size ∧ m.Tallies [c] m' := by
  rcases hm.apply_cases c with ⟨m', hfinished, hm'⟩ | ⟨fault, hfailed, hblocked⟩
  · exact ⟨m', hfinished, hm', (apply_eq_iff.mp hfinished).tallies hm hc⟩
  · have hsize := hm.size_eq
    simp only [OnTapeAfter, List.take_succ_cons, List.take_zero, Command.displacement] at hafter
    cases hblocked with
    | read => exact absurd rfl hc.2
    | moveLeft hpointer =>
      simp only [Command.offset?, Option.getD_some] at hafter
      omega
    | moveRight hpointer =>
      simp only [Command.offset?, Option.getD_some] at hafter
      omega

/-- Otherwise it fails, and leaves the machine as it was. -/
theorem apply_of_not_onTapeAfter (hm : m.OnTape size) (hafter : ¬ m.OnTapeAfter [c] 1) :
    m.apply c =
      .failed (.pointerOutOfBounds (m.pointer + Command.displacement [c]) m.tape.size) m := by
  simp only [OnTapeAfter, List.take_succ_cons, List.take_zero] at hafter
  cases hoffset : c.offset? with
  | none =>
    -- A command that does not move leaves the pointer on the tape.
    have hstays : m.pointer + Command.displacement [c] = m.pointer := by
      simp [Command.displacement, hoffset]
    rw [hstays] at hafter
    exact absurd ⟨hm.pointer_nonneg, hm.pointer_lt_size⟩ hafter
  | some offset =>
    have hmoves : Command.displacement [c] = offset := by
      simp [Command.displacement, hoffset]
    rw [hmoves] at hafter ⊢
    rw [apply_of_offset? m hoffset, Machine.move, if_neg hafter]

/-- A row of moves and additions goes through if all places on its way are on the tape. -/
theorem OnTape.applyAll_tallies (hm : m.OnTape size) (hcs : ∀ c ∈ cs, c ≠ .write ∧ c ≠ .read)
    (hway : ∀ k ≤ cs.length, m.OnTapeAfter cs k) :
    ∃ m', m.applyAll cs = .finished m' ∧ m'.OnTape size ∧ m.Tallies cs m' := by
  induction cs generalizing m with
  | nil => exact ⟨m, rfl, hm, .nil m⟩
  | cons c cs ih =>
    have hfirst : m.OnTapeAfter [c] 1 := hway 1 (by simp)
    obtain ⟨m₁, happly, hm₁, htallies⟩ :=
      hm.apply_of_onTapeAfter (hcs c List.mem_cons_self) hfirst
    have hrest (k : Nat) (hk : k ≤ cs.length) : m₁.OnTapeAfter cs k :=
      (hway (k + 1) (Nat.succ_le_succ hk)).behind htallies.pointer_eq htallies.size_eq
    obtain ⟨m', hfinished, hm', htallies'⟩ :=
      ih hm₁ (fun c' hc' ↦ hcs c' (List.mem_cons_of_mem c hc')) hrest
    refine ⟨m', ?_, hm', htallies.append htallies'⟩
    simp only [applyAll, happly]
    exact hfinished

/-- Otherwise it fails at the first command that leads off the tape. -/
theorem OnTape.applyAll_of_first_exit (hm : m.OnTape size)
    (hcs : ∀ c ∈ cs, c ≠ .write ∧ c ≠ .read) {k : Nat} (hk : k ≤ cs.length)
    (hexit : ¬ m.OnTapeAfter cs k) (hway : ∀ l < k, m.OnTapeAfter cs l) :
    ∃ m', m.applyAll cs = .failed
        (.pointerOutOfBounds (m.pointer + Command.displacement (cs.take k)) size) m' ∧
      m.Tallies (cs.take (k - 1)) m' := by
  cases k with
  | zero =>
    refine absurd ⟨?_, ?_⟩ hexit
    · simpa [Command.displacement] using hm.pointer_nonneg
    · simpa [Command.displacement] using hm.pointer_lt_size
  | succ l =>
    have hl : l < cs.length := hk
    have hsplit : cs.take (l + 1) = cs.take l ++ [cs[l]] := List.take_succ_eq_append_getElem hl
    have hbefore (n : Nat) (hn : n ≤ (cs.take l).length) : m.OnTapeAfter (cs.take l) n := by
      rw [List.length_take, Nat.min_eq_left (Nat.le_of_lt hl)] at hn
      have hafter := hway n (by omega)
      unfold OnTapeAfter at hafter ⊢
      rwa [List.take_take, Nat.min_eq_left hn]
    obtain ⟨m₁, hfinished, hm₁, htallies⟩ :=
      hm.applyAll_tallies (fun c hc ↦ hcs c (List.mem_of_mem_take hc)) hbefore
    have hplace : m₁.pointer + Command.displacement [cs[l]] =
        m.pointer + Command.displacement (cs.take (l + 1)) := by
      rw [htallies.pointer_eq, hsplit, Command.displacement_append, Int.add_assoc]
    have hfails : ¬ m₁.OnTapeAfter [cs[l]] 1 := by
      unfold OnTapeAfter at hexit ⊢
      simp only [List.take_succ_cons, List.take_zero]
      rw [hplace, htallies.size_eq]
      exact hexit
    have happly := apply_of_not_onTapeAfter hm₁ hfails
    rw [hplace, hm₁.size_eq] at happly
    have hrow := applyAll_append hfinished (cs.drop l)
    rw [List.take_append_drop, List.drop_eq_getElem_cons hl] at hrow
    refine ⟨m₁, ?_, htallies⟩
    rw [hrow]
    simp only [applyAll, happly]

/-! ### Moves alone -/

theorem move_of_onTapeAfter (h : m.OnTapeAfter cs cs.length) :
    m.move (Command.displacement cs) =
      .finished { m with pointer := m.pointer + Command.displacement cs } := by
  rw [OnTapeAfter, List.take_length] at h
  rw [Machine.move, if_pos h]

/-- Moves that stay on the tape on their way are one move. -/
theorem applyAll_moves (hmoves : ∀ c ∈ cs, c.offset? ≠ none)
    (hway : ∀ k ≤ cs.length, m.OnTapeAfter cs k) :
    m.applyAll cs = .finished { m with pointer := m.pointer + Command.displacement cs } := by
  induction cs generalizing m with
  | nil =>
    simp only [applyAll, Command.displacement, Int.add_zero]
  | cons c cs ih =>
    obtain ⟨offset, hoffset⟩ := Option.ne_none_iff_exists'.mp (hmoves c List.mem_cons_self)
    have hfirst : m.OnTapeAfter [c] [c].length := hway 1 (by simp)
    have hdisplacement : Command.displacement [c] = offset := by
      simp [Command.displacement, hoffset]
    have happly : m.apply c =
        .finished { m with pointer := m.pointer + Command.displacement [c] } := by
      rw [m.apply_of_offset? hoffset, ← hdisplacement]
      exact move_of_onTapeAfter hfirst
    have hrest := ih (m := { m with pointer := m.pointer + Command.displacement [c] })
      (fun c' hc' ↦ hmoves c' (List.mem_cons_of_mem c hc'))
      fun k hk ↦ (hway (k + 1) (Nat.succ_le_succ hk)).behind rfl rfl
    have hsum : Command.displacement (c :: cs) =
        Command.displacement [c] + Command.displacement cs :=
      Command.displacement_append [c] cs
    simp only [applyAll, happly]
    rw [hrest, hsum, Int.add_assoc]

end Machine

/-- A row of moves and additions, from a machine whose pointer is on its tape. If the pointer
is on the tape after every command, the row goes through, the pointer has moved by the
displacement of all commands, and each cell holds what it held, the increments issued there
more and the decrements less, modulo 256. Otherwise it fails at the first command after which
the pointer would be off the tape, in the state that the commands before it have left. So
additions alone are one addition, moves alone that stay on the tape are one move, and moves
that leave it on their way fail even where one move of their displacement would succeed. -/
theorem straight_line_follows_displacement {m : Machine} {size : Nat} (hm : m.OnTape size)
    {cs : List Command} (hcs : ∀ c ∈ cs, c ≠ .write ∧ c ≠ .read) :
    ((∀ k ≤ cs.length, m.OnTapeAfter cs k) →
      ∃ fuel m', execute fuel (cs.map .command) m = some (.finished m') ∧ m.Tallies cs m') ∧
      (∀ k ≤ cs.length, ¬ m.OnTapeAfter cs k → (∀ l < k, m.OnTapeAfter cs l) →
        ∃ fuel m', execute fuel (cs.map .command) m = some (.failed
            (.pointerOutOfBounds (m.pointer + Command.displacement (cs.take k)) size) m') ∧
          m.Tallies (cs.take (k - 1)) m') ∧
      ((∀ c ∈ cs, c.delta? ≠ none) → ∀ o,
        (∃ fuel, execute fuel (cs.map .command) m = some o) ↔
          (m.add (Command.total cs)).map Machine.flush = o) ∧
      ((∀ c ∈ cs, c.offset? ≠ none) → (∀ k ≤ cs.length, m.OnTapeAfter cs k) → ∀ o,
        (∃ fuel, execute fuel (cs.map .command) m = some o) ↔
          (m.move (Command.displacement cs)).map Machine.flush = o) ∧
      ((∀ c ∈ cs, c.offset? ≠ none) → (∃ k ≤ cs.length, ¬ m.OnTapeAfter cs k) →
        (∃ fuel target m', execute fuel (cs.map .command) m =
          some (.failed (.pointerOutOfBounds target size) m')) ∧
        (m.OnTapeAfter cs cs.length → ∃ m', m.move (Command.displacement cs) = .finished m')) := by
  have hexits (k : Nat) (hk : k ≤ cs.length) (hexit : ¬ m.OnTapeAfter cs k)
      (hway : ∀ l < k, m.OnTapeAfter cs l) :
      ∃ fuel m', execute fuel (cs.map .command) m = some (.failed
          (.pointerOutOfBounds (m.pointer + Command.displacement (cs.take k)) size) m') ∧
        m.Tallies (cs.take (k - 1)) m' := by
    obtain ⟨m', hfailed, htallies⟩ := hm.applyAll_of_first_exit hcs hk hexit hway
    obtain ⟨fuel, hexecute⟩ :=
      exists_execute_commands_iff.mpr (congrArg (·.map Machine.flush) hfailed)
    exact ⟨fuel, m'.flush, hexecute, htallies.flush⟩
  refine ⟨fun hway ↦ ?_, hexits, fun hadds o ↦ ?_, fun hmoves hway o ↦ ?_, fun _ hexit ↦ ⟨?_, ?_⟩⟩
  · obtain ⟨m', hfinished, -, htallies⟩ := hm.applyAll_tallies hcs hway
    obtain ⟨fuel, hexecute⟩ :=
      exists_execute_commands_iff.mpr (congrArg (·.map Machine.flush) hfinished)
    exact ⟨fuel, m'.flush, hexecute, htallies.flush⟩
  · have hadd : m.add (Command.total cs) = m.applyAll cs :=
      (Program.yields_adds_iff hm hadds).mp (Program.yields_commands_iff.mpr rfl)
    rw [exists_execute_commands_iff, hadd]
  · rw [exists_execute_commands_iff, Machine.applyAll_moves hmoves hway,
      Machine.move_of_onTapeAfter (hway cs.length (Nat.le_refl _))]
  · -- The run fails at the first of the places off the tape.
    obtain ⟨hk, hfirst⟩ := Nat.find_spec hexit
    have hway (l : Nat) (hl : l < Nat.find hexit) : m.OnTapeAfter cs l := by
      have hbefore := Nat.find_min hexit hl
      exact Decidable.not_not.mp fun hoff ↦ hbefore ⟨by omega, hoff⟩
    obtain ⟨fuel, m', hexecute, -⟩ := hexits _ hk hfirst hway
    exact ⟨fuel, _, m', hexecute⟩
  · intro hnet
    exact ⟨_, Machine.move_of_onTapeAfter hnet⟩

/-- On a tape of two cells: a row that goes to the second cell and back and wraps the first cell
around, and moves that run over the end on their way to a place on the tape. -/
theorem straight_line_follows_displacement_two_cells :
    (⟨#[255, 0], 0, [], #[], [], true⟩ : Machine).OnTape 2 ∧
      (∀ c ∈ [Command.increment, .moveRight, .decrement, .moveLeft, .increment],
        c ≠ .write ∧ c ≠ .read) ∧
      (∃ fuel m', execute fuel
          ([Command.increment, .moveRight, .decrement, .moveLeft, .increment].map .command)
          ⟨#[255, 0], 0, [], #[], [], true⟩ = some (.finished m') ∧ m'.pointer = 0 ∧
        ∃ new, m'.tape[0]? = some new ∧ (new.toNat : Int) = 1) ∧
      (∃ fuel m', execute fuel ([Command.moveRight, .moveRight, .moveLeft].map .command)
          ⟨#[255, 0], 0, [], #[], [], true⟩ =
        some (.failed (.pointerOutOfBounds 2 2) m') ∧ m'.pointer = 1) ∧
      ∃ m', (⟨#[255, 0], 0, [], #[], [], true⟩ : Machine).move
        (Command.displacement [.moveRight, .moveRight, .moveLeft]) = .finished m' := by
  have hm : (⟨#[255, 0], 0, [], #[], [], true⟩ : Machine).OnTape 2 :=
    ⟨rfl, by decide, by decide⟩
  have hrow : ∀ c ∈ [Command.increment, .moveRight, .decrement, .moveLeft, .increment],
      c ≠ .write ∧ c ≠ .read := by decide
  have hmoves : ∀ c ∈ [Command.moveRight, .moveRight, .moveLeft], c ≠ .write ∧ c ≠ .read := by
    decide
  obtain ⟨fuel, m', hexecute, htallies⟩ :=
    (straight_line_follows_displacement hm hrow).1 (by decide)
  obtain ⟨old, new, hold, hnew, hsum⟩ := htallies.cell_eq 0 (by decide)
  obtain ⟨-, hexits, -, -, hover⟩ := straight_line_follows_displacement hm hmoves
  obtain ⟨fuel', m'', hfailed, htallies'⟩ := hexits 2 (by decide) (by decide) (by decide)
  refine ⟨hm, hrow, ⟨fuel, m', hexecute, htallies.pointer_eq, new, hnew, ?_⟩,
    ⟨fuel', m'', hfailed, htallies'.pointer_eq⟩, ?_⟩
  · obtain rfl : (255 : UInt8) = old := Option.some.inj hold
    exact hsum
  · exact (hover (by decide) ⟨2, by decide, by decide⟩).2 (by decide)

end Brainfuck
