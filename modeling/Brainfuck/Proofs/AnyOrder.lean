import Brainfuck.Proofs.PendingBodies
import Brainfuck.Proofs.Spelling
import Mathlib.Algebra.GroupWithZero.Nat
import Mathlib.Data.List.Perm.Basic
import Mathlib.Data.Multiset.Bind

/-!
Walks over a program in any order. A walk with a stack takes the body that was put there last. A
walk may as well take any other pending body, as long as it leaves the bodies of its loops
pending (`Pending.Walk`). What is pending then is a multiset, and what a walk still has to visit
are the pending bodies and all that lies inside them. A step of a walk only moves one body from
what is still to be visited to what has been (`Pending.Walk.coe_add_bind`).

So every walk visits the bodies that the stack visits, once each. It cannot go on for longer than
there are bodies (`Pending.Walk.length_add_card`), and when it has been in all of them nothing is
pending (`Pending.Walk.eq_zero_iff`). What it adds up on the way is then the same in every order,
if the order of two bodies makes no difference to it (`Pending.Walk.foldl_eq`). That is so for the
commands, the loops and the depth, and with the stack these are the values that follow the
structure of the program (`walks_follow_structure`).
-/

set_option autoImplicit false
set_option relaxedAutoImplicit false

namespace Brainfuck

namespace Program

namespace Pending

/-- The bodies of the loops that stand directly in a body, one loop further in. -/
def inner (entry : Pending) : List Pending :=
  entry.body.loopBodies.map (Pending.mk (entry.depth + 1))

/-- The bodies that a walk with a stack visits, in its order. -/
def visited (pending : List Pending) : List Pending :=
  match pending with
  | [] => []
  | entry :: rest => entry :: visited (entry.push rest)
termination_by weight pending
decreasing_by exact weight_push_lt entry rest

/-- A body and all that lies inside it. -/
def within (entry : Pending) : List Pending := visited [entry]

/-- A walk takes the bodies of a list one after another, each from what is pending by then, and
leaves the bodies of its loops pending. `Walk pending taken left` says that such a walk leads from
`pending` to `left`. -/
inductive Walk : Multiset Pending → List Pending → Multiset Pending → Prop
  | stop {pending : Multiset Pending} : Walk pending [] pending
  | take {pending left : Multiset Pending} {entry : Pending} {taken : List Pending}
      (rest : Multiset Pending) (hpending : pending = entry ::ₘ rest)
      (hrest : Walk (entry.inner + rest) taken left) : Walk pending (entry :: taken) left

end Pending

/-- The bodies of a program, in the order of a walk with a stack. -/
def bodies (p : Program) : List Pending := Pending.within ⟨0, p⟩

/-! ### The walk with a stack -/

namespace Pending

theorem visited_append (first second : List Pending) :
    visited (first ++ second) = visited first ++ visited second := by
  fun_induction visited first with
  | case1 => rfl
  | case2 entry rest ih =>
    rw [List.cons_append, visited, List.cons_append, ← ih, push, push, List.append_assoc]

theorem visited_eq_flatMap (pending : List Pending) :
    visited pending = pending.flatMap within := by
  induction pending with
  | nil => rw [visited, List.flatMap_nil]
  | cons entry pending ih =>
    rw [← List.singleton_append, visited_append, ih, List.flatMap_append, List.flatMap_singleton,
      within]

theorem within_eq (entry : Pending) :
    entry.within = entry :: entry.inner.reverse.flatMap within := by
  rw [within, visited, push, List.append_nil, visited_eq_flatMap, inner]

/-- A walk with a stack combines what it sees in the order of its visits. -/
theorem foldBodies_eq_foldl_visited {α : Type} (visit : α → Pending → α) (acc : α)
    (pending : List Pending) :
    foldBodies visit acc pending = (visited pending).foldl visit acc := by
  fun_induction foldBodies visit acc pending with
  | case1 acc => rw [visited, List.foldl_nil]
  | case2 acc entry rest ih => rw [ih, visited, List.foldl_cons]

/-- What lies inside a body, once the body itself has been visited. -/
theorem coe_within (entry : Pending) :
    (entry.within : Multiset Pending) =
      entry ::ₘ (entry.inner : Multiset Pending).bind fun inner ↦ inner.within := by
  rw [within_eq, ← Multiset.cons_coe, ← Multiset.coe_bind, Multiset.coe_reverse]

theorem sum_loops_loopBodies (body : Program) :
    (body.loopBodies.map fun inner ↦ inner.loops + 1).sum = body.loops := by
  induction body with
  | nil => rfl
  | cons i body ih =>
    cases i with
    | command c => rw [loopBodies_command_cons, loops_command_cons, ih]
    | loop inner =>
      rw [loopBodies_loop_cons, List.map_cons, List.sum_cons, ih, loops_loop_cons]
      omega

/-- A walk visits as many bodies as are pending and as there are loops in them. -/
theorem length_visited (pending : List Pending) :
    (visited pending).length = (pending.map fun entry ↦ entry.body.loops + 1).sum := by
  fun_induction visited pending with
  | case1 => rfl
  | case2 entry rest ih =>
    have hinner : ((entry.body.loopBodies.map (Pending.mk (entry.depth + 1))).reverse.map
        fun entry ↦ entry.body.loops + 1).sum = entry.body.loops := by
      rw [List.map_reverse, List.sum_reverse, List.map_map]
      exact sum_loops_loopBodies entry.body
    rw [List.length_cons, ih, push, List.map_append, List.sum_append, hinner, List.map_cons,
      List.sum_cons]
    omega

/-! ### Walks in any order -/

/-- The walk with a stack is one of the walks. -/
theorem walk_visited (pending : List Pending) : Walk pending (visited pending) 0 := by
  fun_induction visited pending with
  | case1 => exact .stop
  | case2 entry rest ih =>
    -- The stack holds the bodies of the loops last one first, which a multiset does not see.
    refine .take rest (Multiset.cons_coe entry rest).symm ?_
    rwa [push, ← Multiset.coe_add, Multiset.coe_reverse] at ih

namespace Walk

variable {pending left : Multiset Pending} {taken : List Pending}

/-- What has been visited and what is still to be visited are together what was to be visited at
the start. -/
theorem coe_add_bind (h : Walk pending taken left) :
    (taken : Multiset Pending) + left.bind (fun entry ↦ entry.within) =
      pending.bind fun entry ↦ entry.within := by
  induction h with
  | stop => exact Multiset.zero_add _
  | take rest hpending _ ih =>
    rw [hpending, Multiset.cons_bind, coe_within, ← Multiset.cons_coe, Multiset.cons_add, ih,
      Multiset.add_bind, Multiset.cons_add]

/-- A walk over a program has one step for each body, whatever its order. -/
theorem length_add_card {entry : Pending} (h : Walk {entry} taken left) :
    taken.length + (left.bind fun entry ↦ (entry.within : Multiset Pending)).card =
      entry.body.loops + 1 := by
  have hcard := congrArg Multiset.card h.coe_add_bind
  rw [Multiset.card_add, Multiset.coe_card, Multiset.singleton_bind, Multiset.coe_card, within,
    length_visited, List.map_singleton, List.sum_singleton] at hcard
  exact hcard

/-- Nothing is pending exactly if the walk has been in every body. -/
theorem eq_zero_iff {entry : Pending} (h : Walk {entry} taken left) :
    left = 0 ↔ taken.length = entry.body.loops + 1 := by
  have hcard := h.length_add_card
  constructor
  · rintro rfl
    rwa [Multiset.zero_bind, Multiset.card_zero, Nat.add_zero] at hcard
  · intro hlength
    by_contra hne
    -- Something that is pending still has to be visited itself, whatever lies inside it.
    obtain ⟨next, hnext⟩ := Multiset.exists_mem_of_ne_zero hne
    obtain ⟨rest, rfl⟩ := Multiset.exists_cons_of_mem hnext
    rw [Multiset.cons_bind, coe_within, Multiset.cons_add, Multiset.card_cons] at hcard
    omega

/-- A walk that has nothing left to visit has visited what the walk with a stack visits. -/
theorem perm_visited {pending : List Pending} (h : Walk pending taken 0) :
    taken.Perm (visited pending) := by
  have hsame := h.coe_add_bind
  rw [Multiset.zero_bind, Multiset.add_zero, Multiset.coe_bind, ← visited_eq_flatMap] at hsame
  exact Multiset.coe_eq_coe.mp hsame

/-- What does not depend on the order of two bodies does not depend on the order of all. -/
theorem foldl_eq {α : Type} {visit : α → Pending → α} [RightCommutative visit]
    {pending : List Pending} (h : Walk pending taken 0) (acc : α) :
    taken.foldl visit acc = foldBodies visit acc pending := by
  rw [foldBodies_eq_foldl_visited]
  exact h.perm_visited.foldl_eq acc

end Walk

end Pending

/-! ### Values that follow the structure -/

/-- A value of programs that is computed along their structure. The instructions of a sequence
are taken together from left to right, and what a loop gives is made of what its body gives. -/
structure FollowsStructure {α : Type} (value : Program → α) (empty : α)
    (together : α → α → α) (ofCommand : Command → α) (ofLoop : α → α) : Prop where
  nil : value [] = empty
  command (c : Command) (p : Program) :
    value (.command c :: p) = together (ofCommand c) (value p)
  loop (body p : Program) :
    value (.loop body :: p) = together (ofLoop (value body)) (value p)

theorem followsStructure_commandCount :
    FollowsStructure commandCount 0 (· + ·) (fun _ ↦ 1) (fun inside ↦ inside) where
  nil := by rw [commandCount_eq, commands_nil]
  command c p := by rw [commandCount_eq, commandCount_eq, commands_command_cons]
  loop body p := by rw [commandCount_eq, commandCount_eq, commandCount_eq, commands_loop_cons]

theorem followsStructure_loopCount :
    FollowsStructure loopCount 0 (· + ·) (fun _ ↦ 0) (1 + ·) where
  nil := by rw [loopCount_eq, loops_nil]
  command c p := by rw [loopCount_eq, loopCount_eq, loops_command_cons, Nat.zero_add]
  loop body p := by rw [loopCount_eq, loopCount_eq, loopCount_eq, loops_loop_cons]

theorem followsStructure_nestingDepth :
    FollowsStructure nestingDepth 0 max (fun _ ↦ 0) (1 + ·) where
  nil := by rw [nestingDepth_eq, depth_nil]
  command c p := by rw [nestingDepth_eq, nestingDepth_eq, depth_command_cons, Nat.zero_max]
  loop body p := by rw [nestingDepth_eq, nestingDepth_eq, nestingDepth_eq, depth_loop_cons]

theorem followsStructure_text :
    FollowsStructure text "" (· ++ ·) (fun c ↦ String.singleton c.symbol)
      (fun inside ↦ "[" ++ inside ++ "]") where
  nil := by
    rw [← String.toList_inj, toList_text]
    rfl
  command c p := by
    rw [← String.toList_inj, toList_text]
    simp
  loop body p := by
    rw [← String.toList_inj, toList_text]
    simp

/-- The values that the walks with a stack end with follow the structure of the program: the
numbers of commands and of loops, the depth and the text. And the stack could be anything else
that bodies can be taken from. Whichever of the pending bodies is taken next, the walk ends when
it has been in as many bodies as there are loops, and in the program itself, and it has counted
the same commands, the same loops and the same depth. -/
theorem walks_follow_structure :
    (FollowsStructure commandCount 0 (· + ·) (fun _ ↦ 1) (fun inside ↦ inside) ∧
        FollowsStructure loopCount 0 (· + ·) (fun _ ↦ 0) (1 + ·) ∧
        FollowsStructure nestingDepth 0 max (fun _ ↦ 0) (1 + ·) ∧
        FollowsStructure text "" (· ++ ·) (fun c ↦ String.singleton c.symbol)
          (fun inside ↦ "[" ++ inside ++ "]")) ∧
      ∀ p : Program,
        (p.commandCount = p.commands ∧ p.loopCount = p.loops ∧ p.nestingDepth = p.depth ∧
          p.text = String.ofList p.render) ∧
        Pending.Walk {⟨0, p⟩} p.bodies 0 ∧
        ∀ taken left, Pending.Walk {⟨0, p⟩} taken left →
          taken.length ≤ p.loops + 1 ∧ (left = 0 ↔ taken.length = p.loops + 1) ∧
          (left = 0 →
            taken.foldl (fun total entry ↦ total + entry.body.countP Instruction.isCommand) 0 =
                p.commandCount ∧
              taken.foldl (fun total entry ↦ total + entry.body.loopBodies.length) 0 =
                p.loopCount ∧
              taken.foldl (fun deepest entry ↦ max deepest entry.depth) 0 = p.nestingDepth) := by
  refine ⟨⟨followsStructure_commandCount, followsStructure_loopCount,
    followsStructure_nestingDepth, followsStructure_text⟩, fun p ↦ ⟨⟨commandCount_eq p,
    loopCount_eq p, nestingDepth_eq p, ?_⟩, Pending.walk_visited [⟨0, p⟩], ?_⟩⟩
  · rw [← p.toList_text, String.ofList_toList]
  · intro taken left hwalk
    refine ⟨Nat.le.intro hwalk.length_add_card, hwalk.eq_zero_iff, ?_⟩
    rintro rfl
    have hcommands : RightCommutative fun (total : Nat) (entry : Pending) ↦
        total + entry.body.countP Instruction.isCommand := ⟨fun _ _ _ ↦ Nat.add_right_comm ..⟩
    have hloops : RightCommutative fun (total : Nat) (entry : Pending) ↦
        total + entry.body.loopBodies.length := ⟨fun _ _ _ ↦ Nat.add_right_comm ..⟩
    have hdepth : RightCommutative fun (deepest : Nat) (entry : Pending) ↦
        max deepest entry.depth := ⟨fun _ _ _ ↦ max_right_comm ..⟩
    exact ⟨hwalk.foldl_eq 0, hwalk.foldl_eq 0, hwalk.foldl_eq 0⟩

/-- Two loops, of which the first has another one in it. A stack comes to the second loop first;
here the first one is taken first. -/
theorem walks_follow_structure_first_loop_first :
    Pending.Walk {⟨0, [.loop [.command .write, .loop []], .loop []]⟩}
        [⟨0, [.loop [.command .write, .loop []], .loop []]⟩, ⟨1, [.command .write, .loop []]⟩,
          ⟨2, []⟩, ⟨1, []⟩] 0 ∧
      commandCount [.loop [.command .write, .loop []], .loop []] = 1 ∧
      loopCount [.loop [.command .write, .loop []], .loop []] = 3 ∧
      nestingDepth [.loop [.command .write, .loop []], .loop []] = 2 := by
  have hwalk : Pending.Walk {⟨0, [.loop [.command .write, .loop []], .loop []]⟩}
      [⟨0, [.loop [.command .write, .loop []], .loop []]⟩, ⟨1, [.command .write, .loop []]⟩,
        ⟨2, []⟩, ⟨1, []⟩] 0 :=
    .take 0 rfl (.take {⟨1, []⟩} rfl (.take {⟨1, []⟩} rfl (.take 0 rfl .stop)))
  obtain ⟨hcommands, hloops, hdepth⟩ := ((walks_follow_structure.2 _).2.2 _ _ hwalk).2.2 rfl
  exact ⟨hwalk, hcommands.symm, hloops.symm, hdepth.symm⟩

end Program

end Brainfuck
