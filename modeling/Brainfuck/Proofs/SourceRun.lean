import Brainfuck.Proofs.OnTape
import Brainfuck.Run

/-!
Runs of source texts. A text that does not parse answers with its error and nothing runs; one
that parses is run on a fresh machine, and what it answers is read off the outcome
(`run_of_parse_ok`). A fresh machine has its pointer on the tape, so a run that fails does so
at a command that is blocked, and leaves what was written up to there
(`exists_last_of_execute_failed`).
-/

set_option autoImplicit false
set_option relaxedAutoImplicit false

namespace Brainfuck

/-- The faults of a command on a tape of `size` cells: there is nothing to read, or the pointer
is about to leave the tape, by one cell. -/
def Fault.OfCommand (size : Nat) (fault : Fault) : Prop :=
  fault = .inputExhausted ∨ ∃ position : Int, (position = -1 ∨ position = size) ∧
    fault = .pointerOutOfBounds position size

theorem Fault.OfCommand.exists_diagnostic {size : Nat} {fault : Fault}
    (h : fault.OfCommand size) : ∃ d, fault.diagnostic? = some d := by
  rcases h with rfl | ⟨position, -, rfl⟩
  · exact ⟨_, rfl⟩
  · exact ⟨_, rfl⟩

namespace Machine

theorem onTape_fresh (input : List UInt8) : (fresh input).OnTape tapeSize where
  size_eq := Array.size_replicate
  pointer_nonneg := Int.le_refl 0
  pointer_lt := by
    change (0 : Int) < 1024
    decide

theorem Blocked.ofCommand {m : Machine} {size : Nat} {c : Command} {fault : Fault}
    (h : m.Blocked size c fault) : fault.OfCommand size := by
  cases h with
  | read => exact .inl rfl
  | moveLeft => exact .inr ⟨-1, .inl rfl, rfl⟩
  | moveRight => exact .inr ⟨size, .inr rfl, rfl⟩

end Machine

/-- A run that fails has come to a command that is blocked, and leaves the machine as it was
before that command. -/
theorem exists_last_of_execute_failed {m m' : Machine} {size : Nat} (hm : m.OnTape size)
    {fuel : Nat} {p : Program} {fault : Fault}
    (hexecute : execute fuel p m = some (.failed fault m')) :
    ∃ last c, (Execution.start p m).Reaches last ∧ last.command? = some c ∧
      last.machine.apply c = .failed fault last.machine ∧
      last.machine.Blocked size c fault ∧ m' = last.machine.flush := by
  obtain ⟨last, o, hreaches, hstop, ho⟩ := exists_execute_iff_reaches.mp ⟨fuel, hexecute⟩
  have hlast := Execution.onTape_of_reaches hreaches hm
  rcases Execution.stop_cases hlast hstop with rfl | ⟨c, fault', hcommand, happly, hblocked, rfl⟩
  · cases ho
  · obtain ⟨rfl, rfl⟩ := Outcome.failed.inj ho
    exact ⟨last, c, hreaches, hcommand, happly, hblocked, rfl⟩

/-- More steps lead to no other outcome. -/
theorem execute_unique {fuel fuel' : Nat} {p : Program} {m : Machine} {o o' : Outcome}
    (h : execute fuel p m = some o) (h' : execute fuel' p m = some o') : o = o' := by
  obtain ⟨q, hyields, rfl⟩ := exists_execute_iff.mp ⟨fuel, h⟩
  obtain ⟨q', hyields', rfl⟩ := exists_execute_iff.mp ⟨fuel', h'⟩
  rw [hyields.unique hyields']

/-- What a run answers with: the bytes that it has written, or its fault. -/
def Outcome.answer : Outcome → Except Failure (List UInt8)
  | .finished m => .ok m.output.toList
  | .failed fault _ => .error (.fault fault)

theorem Outcome.answer_of_fault? {o : Outcome} {fault : Fault} (hfault : o.fault? = some fault) :
    o.answer = .error (.fault fault) := by
  cases o with
  | finished m => simp [Outcome.fault?] at hfault
  | failed fault' m =>
    obtain rfl : fault' = fault := Option.some.inj hfault
    rfl

theorem run_of_parse_error {source : String} {error : ParseError}
    (hparse : parseSource source = .error error) (fuel : Nat) (input : List Int) :
    run fuel source input = some (.error (.parse error)) := by
  simp only [run, hparse]

theorem run_of_parse_ok {source : String} {p : Program} (hparse : parseSource source = .ok p)
    (fuel : Nat) (bytes : List UInt8) :
    run fuel source (bytes.map fun b ↦ (b.toNat : Int)) =
      (execute fuel p (.fresh bytes)).map Outcome.answer := by
  simp only [run, hparse, Text.Byte.ofInts?_map_toNat, runProgram, Option.map_map]
  congr 1
  funext o
  cases o <;> rfl

/-- A run on bytes that stops: the text does not parse, or its program has an outcome. -/
theorem run_cases {fuel : Nat} {source : String} {bytes : List UInt8}
    {answer : Except Failure (List UInt8)}
    (hrun : run fuel source (bytes.map fun b ↦ (b.toNat : Int)) = some answer) :
    (∃ error, parseSource source = .error error ∧ answer = .error (.parse error)) ∨
      ∃ p o, parseSource source = .ok p ∧ execute fuel p (.fresh bytes) = some o ∧
        o.answer = answer := by
  cases hparse : parseSource source with
  | error error =>
    rw [run_of_parse_error hparse, Option.some.injEq] at hrun
    exact .inl ⟨error, rfl, hrun.symm⟩
  | ok p =>
    rw [run_of_parse_ok hparse] at hrun
    obtain ⟨o, hexecute, ho⟩ := Option.map_eq_some_iff.mp hrun
    exact .inr ⟨p, o, rfl, hexecute, ho⟩

/-- More steps lead to no other answer. -/
theorem run_unique {fuel fuel' : Nat} {source : String} {bytes : List UInt8}
    {answer answer' : Except Failure (List UInt8)}
    (h : run fuel source (bytes.map fun b ↦ (b.toNat : Int)) = some answer)
    (h' : run fuel' source (bytes.map fun b ↦ (b.toNat : Int)) = some answer') :
    answer = answer' := by
  cases hparse : parseSource source with
  | error error =>
    rw [run_of_parse_error hparse] at h h'
    exact Option.some.inj (h.symm.trans h')
  | ok p =>
    rw [run_of_parse_ok hparse] at h h'
    obtain ⟨o, hexecute, rfl⟩ := Option.map_eq_some_iff.mp h
    obtain ⟨o', hexecute', rfl⟩ := Option.map_eq_some_iff.mp h'
    rw [execute_unique hexecute hexecute']

end Brainfuck
