import Brainfuck.Program

/-!
Walks over a program that keep their own list of pending bodies. Each walk
takes one body, looks at its instructions and leaves the bodies of its loops
for later, so the depth of a program never becomes depth of recursion.
-/

set_option autoImplicit false
set_option relaxedAutoImplicit false

namespace Brainfuck

namespace Instruction

def isCommand : Instruction → Bool
  | .command _ => true
  | .loop _ => false

def body? : Instruction → Option Program
  | .command _ => none
  | .loop body => some body

end Instruction

namespace Program

/-- The bodies of the loops that stand directly in a body. -/
def loopBodies (body : Program) : List Program :=
  body.filterMap Instruction.body?

/-- A body that waits to be visited, with the number of loops around it. -/
structure Pending where
  depth : Nat
  body : Program

namespace Pending

/-- The bodies of the loops directly in a body, last one first, in front of those
that were waiting before. -/
def push (entry : Pending) (pending : List Pending) : List Pending :=
  (entry.body.loopBodies.map (Pending.mk (entry.depth + 1))).reverse ++ pending

/-- What is left to visit: the bodies and the opcodes in them. -/
def weight : List Pending → Nat
  | [] => 0
  | entry :: pending => entry.body.opcodes.length + 1 + weight pending

theorem weight_append (first second : List Pending) :
    weight (first ++ second) = weight first + weight second := by
  induction first with
  | nil => simp [weight]
  | cons entry first ih =>
    rw [List.cons_append, weight, weight, ih]
    omega

theorem weight_reverse (pending : List Pending) : weight pending.reverse = weight pending := by
  induction pending with
  | nil => rfl
  | cons entry pending ih =>
    rw [List.reverse_cons, weight_append, ih, weight, weight, weight]
    omega

theorem weight_loopBodies_le (depth : Nat) (body : Program) :
    weight (body.loopBodies.map (Pending.mk depth)) ≤ body.opcodes.length := by
  induction body with
  | nil => simp [weight, loopBodies]
  | cons i body ih =>
    cases i with
    | command c =>
      simp only [loopBodies, List.filterMap_cons, Instruction.body?, opcodes,
        Instruction.opcodes, List.length_append] at ih ⊢
      omega
    | loop inner =>
      simp only [loopBodies, List.filterMap_cons, Instruction.body?, opcodes,
        Instruction.opcodes, List.length_append, List.length_cons, List.length_nil, weight,
        List.map_cons] at ih ⊢
      omega

/-- Opening a body leaves less to visit. -/
theorem weight_push_lt (entry : Pending) (pending : List Pending) :
    weight (entry.push pending) < weight (entry :: pending) := by
  have hbodies := weight_loopBodies_le (entry.depth + 1) entry.body
  rw [push, weight_append, weight_reverse, weight]
  omega

end Pending

/-- Visits every body that is pending or lies inside one, and combines what `visit`
sees there. -/
def foldBodies {α : Type} (visit : α → Pending → α) (acc : α) (pending : List Pending) : α :=
  match pending with
  | [] => acc
  | entry :: rest => foldBodies visit (visit acc entry) (entry.push rest)
termination_by Pending.weight pending
decreasing_by exact Pending.weight_push_lt entry rest

def commandCount (p : Program) : Nat :=
  foldBodies (fun total entry ↦ total + entry.body.countP Instruction.isCommand) 0 [⟨0, p⟩]

def loopCount (p : Program) : Nat :=
  foldBodies (fun total entry ↦ total + entry.body.loopBodies.length) 0 [⟨0, p⟩]

def nestingDepth (p : Program) : Nat :=
  foldBodies (fun deepest entry ↦ max deepest entry.depth) 0 [⟨0, p⟩]

/-- Writes what is left of a body and then of the bodies around it; each of those
is resumed after the bracket that closes the loop inside it. -/
def writeFrom (text : String) (body : Program) (enclosing : List Program) : String :=
  match body, enclosing with
  | [], [] => text
  | [], outer :: enclosing => writeFrom (text.push Opcode.loopEnd.symbol) outer enclosing
  | .command c :: body, enclosing => writeFrom (text.push c.symbol) body enclosing
  | .loop inner :: body, enclosing =>
    writeFrom (text.push Opcode.loopBegin.symbol) inner (body :: enclosing)
termination_by sizeOf body + sizeOf enclosing

/-- The text of a program: its symbols and nothing else. -/
def text (p : Program) : String :=
  writeFrom "" p []

/-- Compares pairs of bodies, the pairs of inner bodies first. -/
def sameFrom : List (Program × Program) → Bool
  | [] => true
  | ([], []) :: rest => sameFrom rest
  | (.command c :: p, .command d :: q) :: rest => c == d && sameFrom ((p, q) :: rest)
  | (.loop b :: p, .loop c :: q) :: rest => sameFrom ((b, c) :: (p, q) :: rest)
  | _ => false
termination_by pairs => pairs.foldr (fun pair left ↦ sizeOf pair.1 + 1 + left) 0
decreasing_by
  all_goals simp; try omega

/-- Whether two programs are the same tree. -/
def same (p q : Program) : Bool :=
  sameFrom [(p, q)]

theorem sameFrom_eq_true_iff (pairs : List (Program × Program)) :
    sameFrom pairs = true ↔ ∀ pair ∈ pairs, pair.1 = pair.2 := by
  fun_induction sameFrom pairs with
  | case1 => simp
  | case2 rest ih => simp [ih]
  | case3 c p d q rest ih =>
    rw [Bool.and_eq_true, ih]
    simp only [List.forall_mem_cons, beq_iff_eq, List.cons.injEq, Instruction.command.injEq,
      and_assoc]
  | case4 b p c q rest ih =>
    rw [ih]
    simp only [List.forall_mem_cons, List.cons.injEq, Instruction.loop.injEq, and_assoc]
  | case5 pairs hnil hempty hcommand hloop =>
    simp only [Bool.false_eq_true, false_iff]
    intro h
    obtain _ | ⟨⟨p, q⟩, rest⟩ := pairs
    · exact hnil rfl
    · obtain rfl : p = q := h (p, q) List.mem_cons_self
      obtain _ | ⟨i, p⟩ := p
      · exact hempty rest rfl
      · cases i with
        | command c => exact hcommand c p c p rest rfl
        | loop b => exact hloop b p b p rest rfl

@[simp] theorem same_eq_true_iff {p q : Program} : p.same q = true ↔ p = q := by
  simp [same, sameFrom_eq_true_iff]

instance : DecidableEq Program := fun p q ↦
  decidable_of_iff (p.same q = true) same_eq_true_iff

end Program

end Brainfuck
