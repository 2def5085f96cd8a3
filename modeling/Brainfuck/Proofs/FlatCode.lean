import Brainfuck.Proofs.FrameStack
import Brainfuck.Proofs.Nesting
import Brainfuck.Run

/-!
Programs as flat code. Flat code is a sequence of symbols, run with nothing but an
index into it: a bracket jumps to its partner, and partners are found by the
nesting of the brackets alone, without a tree. Where a piece of the code spells a
program, the brackets of a loop in it are partners (`Flat.closing?_loop`,
`Flat.opening?_loop`), so flat code realizes the structural rules (`Flat.realizes`).
Runs with frames realize the same rules, so a source text and its flat code end
alike.
-/

set_option autoImplicit false
set_option relaxedAutoImplicit false

namespace Brainfuck

namespace Flat

/-- A run of flat code between two steps. -/
structure Place where
  index : Nat
  machine : Machine

/-- The partner of an opening bracket: the first closing one behind it that brings the
nesting back to what it was before. -/
def closing? (code : List Char) (i : Nat) : Option Nat :=
  (List.range code.length).find? fun j ↦
    i < j ∧ code[j]? = some ']' ∧ nesting '[' ']' code (j + 1) = nesting '[' ']' code i

/-- The partner of a closing bracket: the last opening one in front of it at which the
nesting was what it is behind. -/
def opening? (code : List Char) (j : Nat) : Option Nat :=
  (List.range j).reverse.find? fun i ↦
    code[i]? = some '[' ∧ nesting '[' ']' code i = nesting '[' ']' code (j + 1)

namespace Place

/-- Goes on behind the symbol if it did its work. -/
def advance (x : Place) : Outcome → Transition Place
  | .finished m => .next ⟨x.index + 1, m⟩
  | .failed fault m => .stop (.failed fault m)

/-- Goes on at another symbol. A bracket without a partner leaves the run where it is. -/
def jump (x : Place) : Option Nat → Transition Place
  | some index => .next ⟨index, x.machine⟩
  | none => .next x

end Place

/-- One step of flat code. An opening bracket passes its loop over when the cell is zero; a
closing bracket returns to its partner, which tests the cell again. -/
def step (code : List Char) (x : Place) : Transition Place :=
  match code[x.index]? with
  | none => .stop (.finished x.machine)
  | some '>' => x.advance (x.machine.move 1)
  | some '<' => x.advance (x.machine.move (-1))
  | some '+' => x.advance (x.machine.add 1)
  | some '-' => x.advance (x.machine.add (-1))
  | some '.' => x.advance x.machine.write
  | some ',' => x.advance x.machine.read
  | some '[' =>
    match x.machine.cell? with
    | none => .stop (.failed (.noCell x.machine.pointer) x.machine)
    | some value =>
      if value = 0 then
        x.jump ((closing? code x.index).map (· + 1))
      else
        .next ⟨x.index + 1, x.machine⟩
  | some ']' => x.jump (opening? code x.index)
  | some _ => .next ⟨x.index + 1, x.machine⟩

/-- Some number of steps takes the code from its first symbol to this outcome. -/
def StopsWith (code : List Char) (m : Machine) (o : Outcome) : Prop :=
  Transition.StopsWith (step code) (.next ⟨0, m⟩) o

theorem step_eq_stop {code : List Char} {x : Place} (hget : code[x.index]? = none) :
    step code x = .stop (.finished x.machine) := by
  simp only [step, hget]

theorem step_command {code : List Char} {x : Place} {c : Command}
    (hget : code[x.index]? = some c.symbol) :
    step code x = x.advance (x.machine.apply c) := by
  cases c <;> simp only [step, hget, Command.symbol, Machine.apply]

theorem step_loopBegin {code : List Char} {x : Place} (hget : code[x.index]? = some '[') :
    step code x =
      match x.machine.cell? with
      | none => .stop (.failed (.noCell x.machine.pointer) x.machine)
      | some value =>
        if value = 0 then x.jump ((closing? code x.index).map (· + 1))
        else .next ⟨x.index + 1, x.machine⟩ := by
  simp only [step, hget]

theorem step_loopEnd {code : List Char} {x : Place} (hget : code[x.index]? = some ']') :
    step code x = x.jump (opening? code x.index) := by
  simp only [step, hget]

/-! ### Partners in code that spells a program -/

/-- The symbols of a program open what they close, and never close more. -/
theorem balanced_render (p : Program) :
    NeverExceeds '[' ']' p.render ∧ nesting '[' ']' p.render p.render.length = 0 := by
  rw [← p.symbols_text]
  exact (judged_parseSource p.text).ok_iff.mp ⟨p, parseSource_text p⟩

/-- Looking for the last number below `n` finds it. -/
theorem find?_reverse_range {q : Nat → Bool} {i n : Nat} (hi : i < n) (hq : q i = true)
    (hlast : ∀ k, i < k → k < n → q k = false) : (List.range n).reverse.find? q = some i := by
  induction n with
  | zero => omega
  | succ n ih =>
    rw [List.range_succ, List.reverse_append, List.reverse_singleton, List.singleton_append]
    rcases Nat.lt_or_ge i n with hlt | hge
    · rw [List.find?_cons_of_neg (by simp [hlast n hlt (by omega)])]
      exact ih hlt fun k hk hkn ↦ hlast k hk (by omega)
    · obtain rfl : i = n := by omega
      exact List.find?_cons_of_pos hq

section Loop

variable (before : List Char) (body : Program) (after : List Char)

/-- Flat code with a loop in it, between any other symbols. -/
abbrev loopCode : List Char :=
  before ++ '[' :: (body.render ++ ']' :: after)

theorem getElem?_loopBegin : (loopCode before body after)[before.length]? = some '[' := by
  simp [loopCode]

theorem getElem?_loopEnd :
    (loopCode before body after)[before.length + (body.render.length + 1)]? = some ']' := by
  simp [loopCode]

theorem nesting_loopBegin :
    nesting '[' ']' (loopCode before body after) before.length =
      nesting '[' ']' before before.length :=
  nesting_append_of_le le_rfl _

/-- Inside the loop the nesting is higher than in front of it. -/
theorem lt_nesting_body {k : Nat} (hk : k ≤ body.render.length) :
    nesting '[' ']' before before.length <
      nesting '[' ']' (loopCode before body after) (before.length + (k + 1)) := by
  rw [nesting_append_length_add, nesting_cons_succ, nesting_append_of_le hk]
  have hnonneg := (balanced_render body).1 k hk
  rw [if_pos rfl, if_neg (by decide)]
  omega

theorem nesting_loopEnd :
    nesting '[' ']' (loopCode before body after)
        (before.length + (body.render.length + 1) + 1) =
      nesting '[' ']' before before.length := by
  rw [Nat.add_assoc, nesting_append_length_add, nesting_cons_succ, nesting_append_length_add,
    nesting_cons_succ, nesting_zero, (balanced_render body).2]
  simp

theorem closing?_loop :
    closing? (loopCode before body after) before.length =
      some (before.length + (body.render.length + 1)) := by
  rw [closing?, List.find?_range_eq_some]
  refine ⟨?_, ?_, ?_⟩
  · simp only [decide_eq_true_eq]
    exact ⟨by omega, getElem?_loopEnd before body after,
      (nesting_loopEnd before body after).trans (nesting_loopBegin before body after).symm⟩
  · simp [loopCode]
  · intro j hj
    simp only [Bool.not_eq_true', decide_eq_false_iff_not]
    rintro ⟨hlt, -, hnesting⟩
    obtain ⟨k, rfl⟩ : ∃ k, j = before.length + k := ⟨j - before.length, by omega⟩
    have hinside := lt_nesting_body before body after (show k ≤ body.render.length by omega)
    rw [nesting_loopBegin, Nat.add_assoc] at hnesting
    omega

theorem opening?_loop :
    opening? (loopCode before body after) (before.length + (body.render.length + 1)) =
      some before.length := by
  rw [opening?]
  refine find?_reverse_range (by omega) ?_ ?_
  · simp only [decide_eq_true_eq]
    exact ⟨getElem?_loopBegin before body after,
      (nesting_loopBegin before body after).trans (nesting_loopEnd before body after).symm⟩
  · intro i hi hlt
    simp only [decide_eq_false_iff_not]
    rintro ⟨-, hnesting⟩
    obtain ⟨k, rfl⟩ : ∃ k, i = before.length + (k + 1) := ⟨i - before.length - 1, by omega⟩
    have hinside := lt_nesting_body before body after (show k ≤ body.render.length by omega)
    rw [nesting_loopEnd] at hnesting
    omega

end Loop

/-! ### Flat code and the structural rules -/

/-- A run before a piece: the code spells the piece from the index on, and behind the piece
the run takes the step that it takes there. -/
def StandsAt (code : List Char) (x : Place) (p : Program) (m : Machine)
    (leave : Machine → Transition Place) : Prop :=
  ∃ before after, code = before ++ (p.render ++ after) ∧ x = ⟨before.length, m⟩ ∧
    leave = fun m' ↦ step code ⟨before.length + p.render.length, m'⟩

/-- The place behind some symbols of the code, if a program follows there. -/
theorem standsAt_behind {code : List Char} (before passed after : List Char) {p : Program}
    {m : Machine} {index : Nat} (hcode : code = before ++ (passed ++ (p.render ++ after)))
    (hindex : index = before.length + (passed.length + p.render.length)) :
    StandsAt code ⟨before.length + passed.length, m⟩ p m fun m' ↦ step code ⟨index, m'⟩ := by
  refine ⟨before ++ passed, after, ?_, ?_, ?_⟩
  · rw [hcode, List.append_assoc]
  · rw [List.length_append]
  · rw [hindex, List.length_append, Nat.add_assoc]

theorem realizes (code : List Char) : Realizes (step code) (StandsAt code) where
  nil := by
    rintro _ m _ ⟨before, after, -, rfl, rfl⟩
    rfl
  command := by
    rintro _ c p m m' _ ⟨before, after, hcode, rfl, rfl⟩ happly
    have hget : code[before.length]? = some c.symbol := by simp [hcode]
    refine ⟨⟨before.length + 1, m'⟩, ?_, standsAt_behind before [c.symbol] after ?_ ?_⟩
    · rw [step_command hget, happly, Place.advance]
    · simp [hcode]
    · simp [Nat.add_comm]
  commandFails := by
    rintro _ c p m m' fault _ ⟨before, after, hcode, rfl, rfl⟩ happly
    have hget : code[before.length]? = some c.symbol := by simp [hcode]
    rw [step_command hget, happly, Place.advance]
  loopNoCell := by
    rintro _ body p m _ ⟨before, after, hcode, rfl, rfl⟩ hcell
    have hget : code[before.length]? = some '[' := by simp [hcode]
    rw [step_loopBegin hget]
    simp only [hcell]
  loopDone := by
    rintro _ body p m _ ⟨before, after, hcode, rfl, rfl⟩ hcell
    have hget : code[before.length]? = some '[' := by simp [hcode]
    have hclosing : closing? code before.length =
        some (before.length + (body.render.length + 1)) := by
      have hloop : code = loopCode before body (p.render ++ after) := by simp [hcode]
      rw [hloop, closing?_loop]
    have hlength : ('[' :: (body.render ++ [']'])).length = body.render.length + 1 + 1 := by
      simp
    refine ⟨⟨before.length + ('[' :: (body.render ++ [']'])).length, m⟩, ?_,
      standsAt_behind before ('[' :: (body.render ++ [']'])) after ?_ ?_⟩
    · rw [hlength, step_loopBegin hget]
      simp only [hcell, ↓reduceIte, hclosing, Option.map_some, Place.jump, Nat.add_assoc]
    · simp [hcode]
    · rw [hlength, Program.render_loop_cons, List.length_cons, List.length_append,
        List.length_cons]
      omega
  loopEnter := by
    rintro _ body p m value _ ⟨before, after, hcode, rfl, rfl⟩ hcell hvalue
    have hloop : code = loopCode before body (p.render ++ after) := by simp [hcode]
    have hget : code[before.length]? = some '[' := by
      rw [hloop, getElem?_loopBegin]
    have hgetEnd : code[before.length + (body.render.length + 1)]? = some ']' := by
      rw [hloop, getElem?_loopEnd]
    have hopening : opening? code (before.length + (body.render.length + 1)) =
        some before.length := by
      rw [hloop, opening?_loop]
    refine ⟨⟨before.length + 1, m⟩,
      fun m' ↦ step code ⟨before.length + (body.render.length + 1), m'⟩, ?_,
      standsAt_behind before ['['] (']' :: (p.render ++ after)) ?_ ?_, ?_⟩
    · rw [step_loopBegin hget]
      simp only [hcell, if_neg hvalue]
    · simp [hcode]
    · simp [Nat.add_comm]
    · intro m'
      refine ⟨⟨before.length, m'⟩, ?_, before, after, hcode, rfl, rfl⟩
      change step code ⟨before.length + (body.render.length + 1), m'⟩ = _
      rw [step_loopEnd hgetEnd, hopening, Place.jump]

/-- The symbols of a program, run as flat code, stop with what the program yields. -/
theorem stopsWith_render_iff {p : Program} {m : Machine} {o : Outcome} :
    StopsWith p.render m o ↔ p.Yields m o := by
  refine (realizes p.render).stopsWith_iff_yields ⟨[], [], ?_, rfl, ?_⟩
  · simp
  · funext m'
    have hget : p.render[0 + p.render.length]? = none := by simp
    exact (step_eq_stop (x := ⟨0 + p.render.length, m'⟩) hget).symm

end Flat

/-! ### Source texts as flat code -/

/-- A run of a source text gives the bytes that its program leaves at a good end. -/
theorem exists_run_eq_ok_iff {source : String} {p : Program}
    (hparse : parseSource source = .ok p) {input output : List UInt8} :
    (∃ fuel, run fuel source (input.map fun b ↦ (b.toNat : Int)) = some (.ok output)) ↔
      ∃ ending, p.EndsWith (.fresh input) ending ∧ ending.fault? = none ∧
        ending.output.toList = output := by
  simp only [run, hparse, Text.Byte.ofInts?_map_toNat, runProgram, Option.map_eq_some_iff]
  constructor
  · rintro ⟨fuel, answer, ⟨o, hexecute, rfl⟩, hanswer⟩
    refine ⟨o.ending, ⟨fuel, o, hexecute, rfl⟩, ?_⟩
    cases o with
    | finished m =>
      simp only [Except.ok.injEq] at hanswer
      exact ⟨rfl, hanswer⟩
    | failed fault m => simp at hanswer
  · rintro ⟨_, ⟨fuel, o, hexecute, rfl⟩, hfault, houtput⟩
    refine ⟨fuel, .ok output, ⟨o, hexecute, ?_⟩, rfl⟩
    cases o with
    | finished m => exact congrArg Except.ok houtput
    | failed fault m => simp [Outcome.ending, Outcome.fault?] at hfault

/-- A source text that parses runs as its symbols do when they are taken for flat code: the
same ends, from the same input, with the same machine left behind. So what it writes
is what the flat code has written when it comes to a good end. -/
theorem flat_iff_execute {source : String} {p : Program} (hparse : parseSource source = .ok p)
    (input : List UInt8) :
    (∀ ending, p.EndsWith (.fresh input) ending ↔
        ∃ o, Flat.StopsWith (symbols source) (.fresh input) o ∧ o.ending = ending) ∧
      ∀ output, (∃ fuel, run fuel source (input.map fun b ↦ (b.toNat : Int)) =
          some (.ok output)) ↔
        ∃ m, Flat.StopsWith (symbols source) (.fresh input) (.finished m) ∧
          m.output.toList = output := by
  have hends (ending : Ending) : p.EndsWith (.fresh input) ending ↔
      ∃ o, Flat.StopsWith (symbols source) (.fresh input) o ∧ o.ending = ending := by
    simp only [Program.endsWith_iff, parseSource_eq_ok_iff.mp hparse, Flat.stopsWith_render_iff]
  refine ⟨hends, ?_⟩
  intro output
  rw [exists_run_eq_ok_iff hparse]
  simp only [hends]
  constructor
  · rintro ⟨_, ⟨o, hstops, rfl⟩, hfault, houtput⟩
    cases o with
    | finished m => exact ⟨m, hstops, houtput⟩
    | failed fault m => simp [Outcome.ending, Outcome.fault?] at hfault
  · rintro ⟨m, hstops, houtput⟩
    exact ⟨_, ⟨.finished m, hstops, rfl⟩, rfl, houtput⟩

/-- A byte that is read and written down to zero, in both forms. -/
theorem flat_iff_execute_countdown :
    parseSource "x,[.-]" =
        .ok [.command .read, .loop [.command .write, .command .decrement]] ∧
      run 12 "x,[.-]" [1] = some (.ok [1]) ∧
      ∃ m, Flat.StopsWith (symbols "x,[.-]") (.fresh [1]) (.finished m) ∧
        m.output.toList = [1] := by
  have hparse : parseSource "x,[.-]" =
      .ok [.command .read, .loop [.command .write, .command .decrement]] := rfl
  have hrun : run 12 "x,[.-]" [1] = some (.ok [1]) := by decide +kernel
  exact ⟨hparse, hrun, ((flat_iff_execute hparse [1]).2 [1]).mp ⟨12, hrun⟩⟩

end Brainfuck
