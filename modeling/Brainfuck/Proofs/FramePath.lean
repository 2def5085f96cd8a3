import Brainfuck.Proofs.AnyOrder
import Brainfuck.Proofs.Reachable

/-!
The frames of a run as a path in the program. Every frame stands at a loop, and the body of that
loop is where the next frame stands, or the run itself if there is no further frame; the outermost
of these bodies is the program (`LeadsTo`). A step passes an instruction and stays in its body, or
it enters the loop ahead and leaves a frame there, or it goes back to the frame that it left last.
So the frames are such a path at every state of a run (`Execution.onPath_of_reaches`), however
often the run goes around in its loops.

The places of the frames are therefore an address in the program (`Program.bodyAt?`), and the
number of frames is the number of loops around the current body. A walk over the program comes to
that body at the same depth (`Program.mem_bodies_of_bodyAt?`), so a run never has more frames than
the program is deep.
-/

set_option autoImplicit false
set_option relaxedAutoImplicit false

namespace Brainfuck

namespace Program

/-! ### Addresses -/

/-- The body at an address. Each index enters the loop that stands there, the outermost first. -/
def bodyAt? (p : Program) : List Nat → Option Program
  | [] => some p
  | i :: address => (p[i]?.bind Instruction.body?).bind fun body ↦ bodyAt? body address

theorem bodyAt?_append (p : Program) (address more : List Nat) :
    p.bodyAt? (address ++ more) = (p.bodyAt? address).bind fun body ↦ body.bodyAt? more := by
  induction address generalizing p with
  | nil => rfl
  | cons i address ih =>
    rw [List.cons_append, bodyAt?, bodyAt?]
    cases p[i]?.bind Instruction.body? with
    | none => rfl
    | some body => exact ih body

/-- A walk comes to every body, at a depth that is the number of loops on the way there. -/
theorem mem_within_of_bodyAt? {p body : Program} {address : List Nat}
    (h : p.bodyAt? address = some body) (depth : Nat) :
    ⟨depth + address.length, body⟩ ∈ Pending.within ⟨depth, p⟩ := by
  induction address generalizing p depth with
  | nil =>
    obtain rfl : p = body := Option.some.inj h
    rw [Pending.within_eq]
    exact List.mem_cons_self
  | cons i address ih =>
    rw [bodyAt?, Option.bind_eq_some_iff] at h
    obtain ⟨inside, hloop, hrest⟩ := h
    obtain ⟨instruction, hget, hbody⟩ := Option.bind_eq_some_iff.mp hloop
    have hinner : (⟨depth + 1, inside⟩ : Pending) ∈ Pending.inner ⟨depth, p⟩ :=
      List.mem_map_of_mem (List.mem_filterMap.mpr ⟨instruction, List.mem_of_getElem? hget, hbody⟩)
    rw [Pending.within_eq, List.length_cons, Nat.add_comm address.length, ← Nat.add_assoc]
    exact List.mem_cons_of_mem _ (List.mem_flatMap.mpr
      ⟨_, List.mem_reverse.mpr hinner, ih hrest (depth + 1)⟩)

theorem mem_bodies_of_bodyAt? {p body : Program} {address : List Nat}
    (h : p.bodyAt? address = some body) : ⟨address.length, body⟩ ∈ p.bodies := by
  have hmem := mem_within_of_bodyAt? h 0
  rwa [Nat.zero_add] at hmem

theorem Pending.le_foldl_max_depth (entries : List Pending) (deepest : Nat) :
    deepest ≤ entries.foldl (fun deepest entry ↦ max deepest entry.depth) deepest := by
  induction entries generalizing deepest with
  | nil => exact Nat.le_refl deepest
  | cons first entries ih => exact (Nat.le_max_left deepest first.depth).trans (ih _)

theorem Pending.depth_le_foldl_max_depth {entries : List Pending} {entry : Pending}
    (h : entry ∈ entries) (deepest : Nat) :
    entry.depth ≤ entries.foldl (fun deepest entry ↦ max deepest entry.depth) deepest := by
  induction entries generalizing deepest with
  | nil => cases h
  | cons first entries ih =>
    rcases List.mem_cons.mp h with rfl | h
    · exact (Nat.le_max_right deepest entry.depth).trans (le_foldl_max_depth entries _)
    · exact ih h _

/-- No body of a program lies in more loops than the program is deep. -/
theorem depth_le_nestingDepth {p : Program} {entry : Pending} (h : entry ∈ p.bodies) :
    entry.depth ≤ p.nestingDepth := by
  rw [nestingDepth, Pending.foldBodies_eq_foldl_visited]
  exact Pending.depth_le_foldl_max_depth h 0

end Program

/-! ### The path of the frames -/

/-- Frames, innermost first, that lead from a program into one of its bodies: each stands at the
loop whose body is that of the next one in, and the outermost stands in the program itself. -/
def LeadsTo (p : Program) : List Cursor → Program → Prop
  | [], body => body = p
  | frame :: frames, body =>
    (∃ h : frame.index < frame.body.length, frame.body[frame.index] = .loop body) ∧
      LeadsTo p frames frame.body

theorem LeadsTo.bodyAt?_eq {p body : Program} {frames : List Cursor} (h : LeadsTo p frames body) :
    p.bodyAt? (frames.map Cursor.index).reverse = some body := by
  induction frames generalizing body with
  | nil => exact congrArg some h.symm
  | cons frame frames ih =>
    obtain ⟨hloop, hframes⟩ := h
    rw [List.map_cons, List.reverse_cons, Program.bodyAt?_append, ih hframes, Option.bind_some,
      Program.bodyAt?, List.getElem?_eq_some_iff.mpr hloop]
    rfl

theorem Cursor.ahead_eq_nil_iff {c : Cursor} : c.ahead = [] ↔ c.body.length ≤ c.index := by
  rw [c.ahead_eq, List.drop_eq_nil_iff]

/-- What lies ahead begins with the instruction at the index. -/
theorem Cursor.exists_getElem_of_ahead {c : Cursor} {i : Instruction} {rest : Program}
    (hahead : c.ahead = i :: rest) : ∃ h : c.index < c.body.length, c.body[c.index] = i := by
  rw [← List.getElem?_eq_some_iff, ← List.head?_drop, ← c.ahead_eq, hahead, List.head?_cons]

namespace Execution

variable {e e' : Execution} {p : Program}

/-- A run stands in a body of the program that its frames lead to, or at the end of it. -/
structure OnPath (e : Execution) (p : Program) : Prop where
  leadsTo : LeadsTo p e.frames e.cursor.body
  index_le : e.cursor.index ≤ e.cursor.body.length

/-- The places of the loops that a run is inside of, the outermost first. -/
def address (e : Execution) : List Nat := (e.frames.map Cursor.index).reverse

theorem onPath_start (p : Program) (m : Machine) : (start p m).OnPath p where
  leadsTo := rfl
  index_le := Nat.zero_le _

/-- A step goes along the path: further in the body, or one loop in or out. -/
theorem OnPath.step (h : e.OnPath p) (hstep : e.step = .next e') : e'.OnPath p := by
  have hframes := h.leadsTo
  rcases place_of_step hstep with
    ⟨-, hleft⟩ | ⟨i, rest, hahead, hnext, hsame⟩ | ⟨body, rest, hahead, hbody, hframe⟩
  · rw [hleft] at hframes
    obtain ⟨⟨hlt, -⟩, hframes⟩ := hframes
    exact ⟨hframes, hlt.le⟩
  · obtain ⟨hlt, -⟩ := Cursor.exists_getElem_of_ahead hahead
    constructor
    · rw [hnext, hsame]
      exact hframes
    · rw [hnext]
      exact hlt
  · constructor
    · rw [hbody, hframe]
      exact ⟨Cursor.exists_getElem_of_ahead hahead, hframes⟩
    · rw [hbody]
      exact Nat.zero_le _

/-- The frames of a run are a path in the program. -/
theorem onPath_of_reaches {m : Machine} (hreaches : (start p m).Reaches e) : e.OnPath p :=
  hreaches.invariant (P := fun e ↦ e.OnPath p) OnPath.step (onPath_start p m)

/-- A run has come to its end without a fault only where no frame is left to go back to. -/
theorem place_of_step_finished {m' : Machine} (hstep : e.step = .stop (.finished m')) :
    e.cursor.ahead = [] ∧ e.frames = [] ∧ e.machine = m' := by
  cases hahead : e.cursor.ahead with
  | nil =>
    cases hframes : e.frames with
    | nil =>
      simp only [Execution.step, hahead, hframes, Transition.stop.injEq,
        Outcome.finished.injEq] at hstep
      exact ⟨rfl, rfl, hstep⟩
    | cons frame frames => simp [Execution.step, hahead, hframes] at hstep
  | cons i rest =>
    cases i with
    | command c =>
      cases happly : e.machine.apply c with
      | finished m => simp [Execution.step, hahead, happly] at hstep
      | failed fault m => simp [Execution.step, hahead, happly] at hstep
    | loop body =>
      cases hcell : e.machine.cell? with
      | none => simp [Execution.step, hahead, hcell] at hstep
      | some value =>
        by_cases hvalue : value = 0
        · simp [Execution.step, hahead, hcell, hvalue] at hstep
        · simp [Execution.step, hahead, hcell, hvalue] at hstep

/-- Where a run ends without a fault, it is at the end of the program, outside of all loops. -/
theorem OnPath.place_of_finished {m' : Machine} (h : e.OnPath p)
    (hstep : e.step = .stop (.finished m')) :
    e.frames = [] ∧ e.cursor.body = p ∧ e.cursor.index = p.length := by
  obtain ⟨hahead, hframes, -⟩ := place_of_step_finished hstep
  have hbody : e.cursor.body = p := by
    have hleads := h.leadsTo
    rwa [hframes] at hleads
  have hle := h.index_le
  have hge := Cursor.ahead_eq_nil_iff.mp hahead
  rw [hbody] at hle hge
  exact ⟨hframes, hbody, Nat.le_antisymm hle hge⟩

end Execution

/-- At every state of a run, after any number of steps, the frames are a path from the program to
the body where the run stands, and the run is at an instruction of that body or at its end. So
their places are the address of that body, and their number is its depth: the one at which a walk
over the program comes to it, and never more than the program is deep. An instruction is looked at
where there is one. A run that ends without a fault ends behind the last instruction of the program,
and no frames are left. -/
theorem frames_lead_to_body (p : Program) (m : Machine) :
    (∀ e, (Execution.start p m).Reaches e →
        e.OnPath p ∧
        p.bodyAt? e.address = some e.cursor.body ∧ e.address.length = e.frames.length ∧
        ⟨e.frames.length, e.cursor.body⟩ ∈ p.bodies ∧ e.frames.length ≤ p.nestingDepth ∧
        (e.cursor.ahead = [] ∧ e.cursor.index = e.cursor.body.length ∨
          ∃ h : e.cursor.index < e.cursor.body.length,
            e.cursor.ahead.head? = some e.cursor.body[e.cursor.index]) ∧
        ∀ m', e.step = .stop (.finished m') →
          e.frames = [] ∧ e.cursor.body = p ∧ e.cursor.index = p.length) ∧
      ∀ fuel m', execute fuel p m = some (.finished m') →
        ∃ e, (Execution.start p m).Reaches e ∧ e.step = .stop (.finished e.machine) ∧
          e.machine.flush = m' ∧ e.frames = [] := by
  constructor
  · intro e hreaches
    have hpath := Execution.onPath_of_reaches hreaches
    have haddress : p.bodyAt? e.address = some e.cursor.body := hpath.leadsTo.bodyAt?_eq
    have hlength : e.address.length = e.frames.length := by
      rw [Execution.address, List.length_reverse, List.length_map]
    have hmem := Program.mem_bodies_of_bodyAt? haddress
    rw [hlength] at hmem
    refine ⟨hpath, haddress, hlength, hmem, Program.depth_le_nestingDepth hmem, ?_,
      fun m' hstep ↦ hpath.place_of_finished hstep⟩
    cases hahead : e.cursor.ahead with
    | nil =>
      have hge := Cursor.ahead_eq_nil_iff.mp hahead
      exact .inl ⟨rfl, Nat.le_antisymm hpath.index_le hge⟩
    | cons i rest =>
      obtain ⟨hlt, hget⟩ := Cursor.exists_getElem_of_ahead hahead
      exact .inr ⟨hlt, congrArg some hget.symm⟩
  · intro fuel m' hexecute
    obtain ⟨e, o, hreaches, hstep, hflush⟩ := exists_execute_iff_reaches.mp ⟨fuel, hexecute⟩
    cases o with
    | failed fault m₁ => cases hflush
    | finished m₁ =>
      obtain ⟨-, hframes, rfl⟩ := Execution.place_of_step_finished hstep
      exact ⟨e, hreaches, hstep, Outcome.finished.inj hflush, hframes⟩

/-- A loop inside of a loop. The run comes to the inner body with as many frames as there can be,
and has none when it is done. -/
theorem frames_lead_to_body_two_loops :
    (∃ e, (Execution.start [.command .increment, .loop [.loop [.command .decrement]]]
          ⟨#[0], 0, [], #[], [], true⟩).Reaches e ∧
        e.address = [1, 0] ∧ e.frames.length = 2 ∧
        Program.bodyAt? [.command .increment, .loop [.loop [.command .decrement]]] [1, 0] =
          some [.command .decrement] ∧
        2 ≤ Program.nestingDepth [.command .increment, .loop [.loop [.command .decrement]]]) ∧
      execute 10 [.command .increment, .loop [.loop [.command .decrement]]]
          ⟨#[0], 0, [], #[], [], true⟩ = some (.finished ⟨#[0], 0, [], #[], [0], true⟩) ∧
      ∃ e, (Execution.start [.command .increment, .loop [.loop [.command .decrement]]]
          ⟨#[0], 0, [], #[], [], true⟩).Reaches e ∧
        e.step = .stop (.finished e.machine) ∧ e.frames = [] := by
  have hreaches : (Execution.start [.command .increment, .loop [.loop [.command .decrement]]]
      ⟨#[0], 0, [], #[], [], true⟩).Reaches
        ⟨.start [.command .decrement], [.start [.loop [.command .decrement]],
          (Cursor.start [.command .increment, .loop [.loop [.command .decrement]]]).next],
          ⟨#[1], 0, [], #[], [], true⟩⟩ :=
    .head rfl (.head rfl (.head rfl .refl))
  have hexecute : execute 10 [.command .increment, .loop [.loop [.command .decrement]]]
      ⟨#[0], 0, [], #[], [], true⟩ = some (.finished ⟨#[0], 0, [], #[], [0], true⟩) := rfl
  obtain ⟨hstates, hend⟩ := frames_lead_to_body
    [.command .increment, .loop [.loop [.command .decrement]]] ⟨#[0], 0, [], #[], [], true⟩
  obtain ⟨-, haddress, -, -, hdepth, -⟩ := hstates _ hreaches
  obtain ⟨last, hlast, hstep, -, hframes⟩ := hend 10 _ hexecute
  exact ⟨⟨_, hreaches, rfl, rfl, haddress, hdepth⟩, hexecute, last, hlast, hstep, hframes⟩

end Brainfuck
