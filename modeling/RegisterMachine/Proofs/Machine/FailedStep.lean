/-
This file says what a step that fails changes. The registers, the memory and the two flags of
comparisons stay; only the fault itself, the fuel and the program counter move. The output stays too,
unless it is what failed: then it keeps the part of the text that it took.
-/

import Mathlib.Order.Basic
import RegisterMachine.Proofs.Machine.Attempt
import RegisterMachine.Proofs.Machine.Output

namespace RegisterMachine

/-- A sum or a difference that is to be stored in the heap pointer. -/
def Instruction.SumsIntoHeapPointer (instruction : Instruction) : Prop :=
  (instruction.opcode = .add ∨ instruction.opcode = .sub) ∧
    instruction.dest = .registerDirect Register.hp.id

namespace Machine

/-- Only a sum or a difference has a carry and an overflow. -/
theorem arithmeticResult_flags {opcode : Opcode} {flags newFlags : Flags}
    {left right result : UInt32}
    (computed : arithmeticResult opcode flags left right = .ok (result, newFlags)) :
    newFlags.zero = flags.zero ∧ newFlags.negative = flags.negative ∧
      (¬(opcode = .add ∨ opcode = .sub) → newFlags = flags) := by
  unfold arithmeticResult at computed
  split at computed
  case h_1 | h_2 =>
    cases computed
    exact ⟨rfl, rfl, fun other => absurd (by simp) other⟩
  case h_4 | h_5 =>
    split at computed
    · cases computed
    · cases computed
      exact ⟨rfl, rfl, fun _ => rfl⟩
  case h_8 => cases computed
  all_goals
    cases computed
    exact ⟨rfl, rfl, fun _ => rfl⟩

/-- What an operation found before its result is stored. -/
theorem operation_ok {machine : Machine} {instruction : Instruction} {dest : UInt8}
    {result : UInt32} {flags : Flags}
    (computed : machine.operation instruction = .ok (dest, result, flags)) :
    ∃ left right, instruction.destRegister = .ok dest ∧
      machine.sourceValue instruction = .ok right ∧ machine.readRegister dest = .ok left ∧
      arithmeticResult instruction.opcode machine.flags left right = .ok (result, flags) := by
  obtain ⟨id, destFound, computed⟩ := bindOk computed
  obtain ⟨right, rightFound, computed⟩ := bindOk computed
  obtain ⟨left, leftFound, computed⟩ := bindOk computed
  obtain ⟨⟨value, newFlags⟩, valueFound, returned⟩ := bindOk computed
  cases returned
  exact ⟨left, right, destFound, rightFound, leftFound, valueFound⟩

/-- A register that can be read but not written is the heap pointer. -/
theorem writableRegister_failed {machine : Machine} {id : UInt8} {value : UInt32}
    {reason : Abort RuntimeError} (readable : machine.readRegister id = .ok value)
    (refused : writableRegister id = .error reason) : id = Register.hp.id := by
  obtain ⟨register, rfl, _⟩ := readRegister_ok readable
  by_cases isHp : register = .hp
  · rw [isHp]
  · rw [writableRegister_id isHp] at refused
    cases refused

theorem storeResult_failed {machine : Machine} {dest : UInt8} {result : UInt32}
    {reason : Abort RuntimeError} (failed : machine.storeResult dest result = .error reason) :
    writableRegister dest = .error reason := by
  unfold storeResult at failed
  rw [writeRegister_eq] at failed
  cases found : writableRegister dest with
  | ok register =>
      rw [found] at failed
      cases failed
  | error cause =>
      rw [found] at failed
      cases failed
      rfl

/-- The machine after a failed instruction differs at most in flags, and in them only if a sum or a
difference was to be stored in the heap pointer. -/
def FlagsAlone (instruction : Instruction) (before after : Machine) : Prop :=
  ∃ flags, after = { before with flags } ∧ flags.zero = before.flags.zero ∧
    flags.negative = before.flags.negative ∧
    (¬instruction.SumsIntoHeapPointer → flags = before.flags)

theorem flagsAlone_same (instruction : Instruction) (machine : Machine) :
    FlagsAlone instruction machine machine :=
  ⟨machine.flags, rfl, rfl, rfl, fun _ => rfl⟩

/-- What a failed instruction leaves of the output. It is as before, unless the output itself
failed: then it took as much of the printed text as there was room for. -/
structure LeavesOutput (machine : Machine) (instruction : Instruction) (error : RuntimeError)
    (before after : Sink) : Prop where
  kept : (∀ reason, error ≠ .output reason) → after = before
  cut : ∀ reason, error = .output reason →
    ∃ text, machine.Prints instruction text ∧ before.Takes text after (.error reason)

/-- Without an error of the output nothing was written. -/
theorem leavesOutput_same (machine : Machine) (instruction : Instruction) {error : RuntimeError}
    (sink : Sink) (other : ∀ reason, error ≠ .output reason) :
    LeavesOutput machine instruction error sink sink where
  kept _ := rfl
  cut reason same := absurd same (other reason)

/-- A failed instruction leaves everything but flags and output as it was. -/
structure Fails (machine : Machine) (sink : Sink) (instruction : Instruction)
    (error : RuntimeError) (outcome : Outcome) : Prop where
  flags : FlagsAlone instruction machine outcome.machine
  output : LeavesOutput machine instruction error sink outcome.sink

section Handlers

variable {machine : Machine} {sink : Sink} {instruction : Instruction} {error : RuntimeError}

theorem arithmetic_failed (computes : instruction.opcode.isArithmetic)
    (failed : (machine.arithmetic sink instruction).result = .error (.raised error)) :
    machine.Fails sink instruction error (machine.arithmetic sink instruction) := by
  have other := (machine.arithmetic_screened sink instruction computes).ne_output failed
  have output := machine.leavesOutput_same instruction sink other
  rw [arithmetic_eq] at failed ⊢
  cases computed : machine.operation instruction with
  | error reason => exact ⟨machine.flagsAlone_same instruction, output⟩
  | ok values =>
      obtain ⟨dest, result, flags⟩ := values
      obtain ⟨left, right, destFound, _, readable, value⟩ := operation_ok computed
      obtain ⟨zero, negative, same⟩ := arithmeticResult_flags value
      rw [computed] at failed
      dsimp only at failed ⊢
      cases stored : storeResult { machine with flags } dest result with
      | ok after =>
          rw [stored] at failed
          cases failed
      | error reason =>
          have isHp := writableRegister_failed readable (storeResult_failed stored)
          refine ⟨⟨flags, rfl, zero, negative, ?_⟩, output⟩
          intro elsewhere
          apply same
          intro sum
          refine elsewhere ⟨sum, ?_⟩
          rw [Instruction.destRegister_ok destFound, isHp]

theorem update_failed {updated : Except (Abort RuntimeError) Machine}
    (updates : Updates machine instruction updated)
    (failed : (Outcome.ofUpdate machine sink updated).result = .error (.raised error)) :
    machine.Fails sink instruction error (Outcome.ofUpdate machine sink updated) := by
  cases updated with
  | ok after => cases failed
  | error reason =>
      cases failed
      have other := updates.screened.ne_output rfl
      exact ⟨machine.flagsAlone_same instruction, machine.leavesOutput_same instruction sink other⟩

theorem printing_failed {outcome : Outcome} (printing : machine.Printing sink instruction outcome)
    (failed : outcome.result = .error (.raised error)) :
    machine.Fails sink instruction error outcome := by
  cases printing with
  | refused reason early =>
      cases failed
      have other (cause : OutputError) : error ≠ .output cause := by
        rintro rfl
        exact early cause rfl
      exact ⟨machine.flagsAlone_same instruction, machine.leavesOutput_same instruction sink other⟩
  | found text log prints =>
      have takes := sink.write_takes text
      rw [Outcome.ofOutput_eq] at failed ⊢
      cases written : (sink.write text).2 with
      | ok _ =>
          rw [written] at failed
          cases failed
      | error reason =>
          rw [written] at failed takes
          cases failed
          refine ⟨machine.flagsAlone_same instruction, fun other => absurd rfl (other reason), ?_⟩
          intro cause same
          cases same
          exact ⟨text, prints, takes⟩

theorem execute_failed
    (failed : (machine.execute sink instruction).result = .error (.raised error)) :
    machine.Fails sink instruction error (machine.execute sink instruction) := by
  have handled := machine.execute_handled sink instruction
  generalize machine.execute sink instruction = outcome at failed handled ⊢
  cases handled with
  | printCharacter opcode =>
      exact printing_failed (machine.printCharacter_printing sink opcode) failed
  | printText opcode => exact printing_failed (machine.printText_printing sink opcode) failed
  | arithmetic computes => exact arithmetic_failed computes failed
  | update updates => exact update_failed updates failed

end Handlers

end Machine

end RegisterMachine
