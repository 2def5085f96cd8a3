import Brainfuck.Program.Traversal

/-!
What the walks over a program add up to. A walk takes a pending body, looks at it, and puts
the bodies of its loops in front of those that were waiting. So all that lies inside a body is
visited before the next one that was waiting with it, and what the walk does for one pending
body can be said by itself (`Program.foldBodies_eq_foldl`). It is a measure of the tree: the
walks give the numbers of commands and of loops and the depth that follow the structure
(`Program.commandCount_eq`, `Program.loopCount_eq`, `Program.nestingDepth_eq`).
-/

set_option autoImplicit false
set_option relaxedAutoImplicit false

namespace Brainfuck

namespace Program

/-! ### The measures along a body -/

@[simp] theorem commands_nil : commands [] = 0 := rfl

@[simp] theorem commands_command_cons (c : Command) (p : Program) :
    commands (.command c :: p) = 1 + p.commands := rfl

@[simp] theorem commands_loop_cons (body p : Program) :
    commands (.loop body :: p) = body.commands + p.commands := rfl

@[simp] theorem loops_nil : loops [] = 0 := rfl

@[simp] theorem loops_command_cons (c : Command) (p : Program) :
    loops (.command c :: p) = p.loops := Nat.zero_add p.loops

@[simp] theorem loops_loop_cons (body p : Program) :
    loops (.loop body :: p) = 1 + body.loops + p.loops := rfl

@[simp] theorem depth_nil : depth [] = 0 := rfl

@[simp] theorem depth_command_cons (c : Command) (p : Program) :
    depth (.command c :: p) = p.depth := Nat.zero_max p.depth

@[simp] theorem depth_loop_cons (body p : Program) :
    depth (.loop body :: p) = max (1 + body.depth) p.depth := rfl

@[simp] theorem loopBodies_nil : loopBodies [] = [] := rfl

@[simp] theorem loopBodies_command_cons (c : Command) (p : Program) :
    loopBodies (.command c :: p) = p.loopBodies := rfl

@[simp] theorem loopBodies_loop_cons (body p : Program) :
    loopBodies (.loop body :: p) = body :: p.loopBodies := rfl

/-! ### Walks -/

/-- If `whole` is what a walk does for one pending body and all that lies inside it, the walk
does that for one pending body after another. -/
theorem foldBodies_eq_foldl {α : Type} {visit : α → Pending → α} (whole : α → Pending → α)
    (hwhole : ∀ acc depth body, whole acc ⟨depth, body⟩ = body.loopBodies.foldr
      (fun inner acc ↦ whole acc ⟨depth + 1, inner⟩) (visit acc ⟨depth, body⟩))
    (acc : α) (pending : List Pending) :
    foldBodies visit acc pending = pending.foldl whole acc := by
  fun_induction foldBodies visit acc pending with
  | case1 acc => rfl
  | case2 acc entry rest ih =>
    rw [ih, Pending.push, List.foldl_append, List.foldl_reverse, List.foldr_map, List.foldl_cons]
    exact congrArg (rest.foldl whole) (hwhole acc entry.depth entry.body).symm

/-- The commands of a body are those that stand in it and those in its loops. -/
theorem add_commands_eq (body : Program) (total : Nat) :
    total + body.commands = body.loopBodies.foldr (fun inner total ↦ total + inner.commands)
      (total + body.countP Instruction.isCommand) := by
  induction body generalizing total with
  | nil => rfl
  | cons i body ih =>
    cases i with
    | command c =>
      rw [commands_command_cons, loopBodies_command_cons, List.countP_cons_of_pos rfl,
        Nat.add_comm _ 1, ← Nat.add_assoc, ← Nat.add_assoc, ih]
    | loop inner =>
      rw [commands_loop_cons, loopBodies_loop_cons, List.foldr_cons,
        List.countP_cons_of_neg Bool.false_ne_true, ← ih]
      omega

/-- The loops of a body are those that stand in it and those in its loops. -/
theorem add_loops_eq (body : Program) (total : Nat) :
    total + body.loops = body.loopBodies.foldr (fun inner total ↦ total + inner.loops)
      (total + body.loopBodies.length) := by
  induction body generalizing total with
  | nil => rfl
  | cons i body ih =>
    cases i with
    | command c => rw [loops_command_cons, loopBodies_command_cons, ih]
    | loop inner =>
      rw [loops_loop_cons, loopBodies_loop_cons, List.foldr_cons, List.length_cons,
        Nat.add_comm (loopBodies body).length, ← Nat.add_assoc total 1, ← ih]
      omega

/-- Inside a body that lies in `depth` loops, the deepest body is that one itself or lies in one
of its loops. -/
theorem max_depth_eq (body : Program) (deepest depth : Nat) :
    max deepest (depth + body.depth) = body.loopBodies.foldr
      (fun inner deepest ↦ max deepest (depth + 1 + inner.depth)) (max deepest depth) := by
  induction body with
  | nil => rfl
  | cons i body ih =>
    cases i with
    | command c => rw [depth_command_cons, loopBodies_command_cons, ih]
    | loop inner =>
      rw [depth_loop_cons, loopBodies_loop_cons, List.foldr_cons, ← ih]
      omega

theorem commandCount_eq (p : Program) : p.commandCount = p.commands := by
  rw [commandCount, foldBodies_eq_foldl fun total entry ↦ total + entry.body.commands]
  · exact Nat.zero_add p.commands
  · intro total depth body
    exact add_commands_eq body total

theorem loopCount_eq (p : Program) : p.loopCount = p.loops := by
  rw [loopCount, foldBodies_eq_foldl fun total entry ↦ total + entry.body.loops]
  · exact Nat.zero_add p.loops
  · intro total depth body
    exact add_loops_eq body total

theorem nestingDepth_eq (p : Program) : p.nestingDepth = p.depth := by
  rw [nestingDepth,
    foldBodies_eq_foldl fun deepest entry ↦ max deepest (entry.depth + entry.body.depth)]
  · change max 0 (0 + p.depth) = p.depth
    omega
  · intro deepest depth body
    exact max_depth_eq body deepest depth

end Program

end Brainfuck
