/-
This file says how the parts of an instruction can fail once its operands have modes that it takes.
Every error then is one of access to the machine or of its output, and no state of the machine leads
to a defect.
-/

import RegisterMachine.Proofs.Machine.Handler
import RegisterMachine.Proofs.Machine.Stack

namespace RegisterMachine

/-- A computation that fails only with errors of one kind and never with a defect. -/
def FailsOnly {α : Type} (kind : RuntimeError → Bool)
    (computation : Except (Abort RuntimeError) α) : Prop :=
  ∀ reason, computation = .error reason → ∃ error, reason = .raised error ∧ kind error

namespace FailsOnly

variable {α β : Type} {kind other : RuntimeError → Bool}

theorem ok (value : α) : FailsOnly kind (.ok value) := by
  intro reason failed
  cases failed

theorem raised {error : RuntimeError} (known : kind error) :
    FailsOnly kind (.error (.raised error) : Except (Abort RuntimeError) α) := by
  intro reason failed
  cases failed
  exact ⟨error, rfl, known⟩

/-- Errors of one kind are errors of every kind that includes it. -/
theorem mono {computation : Except (Abort RuntimeError) α} (fails : FailsOnly kind computation)
    (includes : ∀ error, kind error → other error) : FailsOnly other computation := by
  intro reason failed
  obtain ⟨error, raised, known⟩ := fails reason failed
  exact ⟨error, raised, includes error known⟩

/-- A sequence fails as its parts do. -/
theorem bind {first : Except (Abort RuntimeError) α} {next : α → Except (Abort RuntimeError) β}
    (firstFails : FailsOnly kind first)
    (nextFails : ∀ value, first = .ok value → FailsOnly kind (next value)) :
    FailsOnly kind (first >>= next) := by
  intro reason failed
  cases found : first with
  | error cause =>
      rw [found, errorBind] at failed
      cases failed
      exact firstFails reason found
  | ok value =>
      rw [found, okBind] at failed
      exact nextFails value found reason failed

theorem map {computation : Except (Abort RuntimeError) α} (change : α → β)
    (fails : FailsOnly kind computation) : FailsOnly kind (computation.map change) := by
  intro reason failed
  cases found : computation with
  | error cause =>
      rw [found] at failed
      cases failed
      exact fails reason found
  | ok value =>
      rw [found] at failed
      cases failed

end FailsOnly

/-- Errors of an instruction that was fetched and decoded. -/
def RuntimeError.ofExecution : RuntimeError → Bool
  | stackOverflow | stackUnderflow | memoryOutOfBounds _ | registerNotFound _ | divideByZero
  | invalidAddressingMode _ _ | illegalOperation _ | output _ => true
  | invalidBytecode _ | invalidInstruction _ | opcodeNotFound _ | pcOutOfBounds _
  | heapOutOfBounds _ | fuelExhausted _ => false

/-- Errors of an instruction whose operands all have modes that it takes. -/
def RuntimeError.ofEffect : RuntimeError → Bool
  | invalidAddressingMode _ _ => false
  | error => error.ofExecution

/-- Those of them that the output has no part in. -/
def RuntimeError.ofAccess : RuntimeError → Bool
  | output _ => false
  | error => error.ofEffect

theorem RuntimeError.ofExecution_of_ofEffect (error : RuntimeError) (effect : error.ofEffect) :
    error.ofExecution := by
  cases error with
  | invalidAddressingMode => cases effect
  | _ => exact effect

theorem RuntimeError.ofEffect_of_ofAccess (error : RuntimeError) (access : error.ofAccess) :
    error.ofEffect := by
  cases error with
  | output => cases access
  | _ => exact access

open RuntimeError (ofAccess ofEffect)

theorem Memory.check_failsOnly (address : UInt32) (length : Nat) :
    FailsOnly ofAccess (check address length) := by
  rw [check_eq]
  split
  · exact .ok _
  · exact .raised rfl

theorem Memory.readWord_failsOnly (memory : Memory) (address : UInt32) :
    FailsOnly ofAccess (memory.readWord address) := by
  rw [readWord_eq]
  split
  · exact .ok _
  · exact .raised rfl

theorem Memory.readText_failsOnly (memory : Memory) (address : UInt32) :
    FailsOnly ofAccess (memory.readText address) := by
  rw [readText_eq]
  split
  · exact .ok _
  · exact .raised rfl

theorem Instruction.destRegister_ok {instruction : Instruction} {id : UInt8}
    (found : instruction.destRegister = .ok id) : instruction.dest = .registerDirect id := by
  unfold destRegister at found
  split at found
  · rename_i named
    cases found
    exact named
  · cases found

namespace Machine

/-- A destination that is a register is found. -/
theorem destRegister_ofRegister {instruction : Instruction} {dest : Register}
    (located : instruction.dest = .ofRegister dest) :
    instruction.destRegister = .ok dest.id := by
  rw [Instruction.destRegister, located]
  rfl

theorem readRegister_failsOnly (machine : Machine) (id : UInt8) :
    FailsOnly ofAccess (machine.readRegister id) := by
  rw [readRegister_eq]
  split
  · exact .ok _
  · exact .raised rfl

theorem writableRegister_failsOnly (id : UInt8) :
    FailsOnly ofAccess (writableRegister id) := by
  unfold writableRegister
  split
  · exact .raised rfl
  · exact .ok _
  · exact .raised rfl

theorem writeRegister_failsOnly (machine : Machine) (id : UInt8) (value : UInt32) :
    FailsOnly ofAccess (machine.writeRegister id value) := by
  rw [writeRegister_eq]
  exact .map _ (writableRegister_failsOnly id)

theorem storeResult_failsOnly (machine : Machine) (id : UInt8) (value : UInt32) :
    FailsOnly ofAccess (machine.storeResult id value) :=
  .bind (machine.writeRegister_failsOnly id value) fun _ _ => .ok _

theorem push_failsOnly (machine : Machine) (value : UInt32) :
    FailsOnly ofAccess (machine.push value) := by
  rw [push_eq]
  split
  · exact .raised rfl
  · split
    · exact .ok _
    · exact .raised rfl

theorem pop_failsOnly (machine : Machine) : FailsOnly ofAccess machine.pop := by
  rw [pop_eq]
  split
  · exact .ok _
  · exact .raised rfl

theorem baseOffset_failsOnly (machine : Machine) (base : UInt8) (offset : UInt32) :
    FailsOnly ofAccess (machine.baseOffset base offset) := by
  apply FailsOnly.bind (machine.readRegister_failsOnly base)
  intro value _
  dsimp only
  split
  · exact .ok _
  · exact .raised rfl

/-- An operation of arithmetic or logic is never refused as something else. -/
theorem arithmeticResult_failsOnly (opcode : Opcode) (flags : Flags) (left right : UInt32)
    (isArithmetic : opcode.isArithmetic) :
    FailsOnly ofAccess (arithmeticResult opcode flags left right) := by
  unfold arithmeticResult
  split
  case h_4 | h_5 =>
    split
    · exact .raised rfl
    · exact .ok _
  case h_8 => cases opcode <;> simp_all [Opcode.isArithmetic]
  all_goals exact .ok _

/-- The destination, the result and the flags of an operation before the result is stored. -/
def operation (machine : Machine) (instruction : Instruction) :
    Except (Abort RuntimeError) (UInt8 × UInt32 × Flags) := do
  let dest ← instruction.destRegister
  let right ← machine.sourceValue instruction
  let left ← machine.readRegister dest
  return (dest, ← arithmeticResult instruction.opcode machine.flags left right)

theorem arithmetic_eq (machine : Machine) (sink : Sink) (instruction : Instruction) :
    machine.arithmetic sink instruction =
      match machine.operation instruction with
      | .error reason => ⟨machine, sink, [], .error reason⟩
      | .ok (dest, result, flags) =>
          .ofUpdate { machine with flags } sink
            (storeResult { machine with flags } dest result) := rfl

/-- The address of a text and the text itself before it is printed. -/
def foundText (machine : Machine) (instruction : Instruction) :
    Except (Abort RuntimeError) (UInt32 × List UInt8 × Bool) := do
  let address ← machine.textAddress instruction
  return (address, ← machine.memory.readText address)

theorem printText_eq (machine : Machine) (sink : Sink) (instruction : Instruction) :
    machine.printText sink instruction =
      match machine.foundText instruction with
      | .error reason => ⟨machine, sink, [], .error reason⟩
      | .ok (address, text, terminated) =>
          .ofOutput machine sink (if terminated then [] else [.unterminatedString address])
            text := rfl

end Machine

namespace Outcome

/-- An outcome that succeeded has the machine of its update. -/
theorem ofUpdate_ok {machine : Machine} {sink : Sink}
    {updated : Except (Abort RuntimeError) Machine}
    (succeeded : (ofUpdate machine sink updated).result = .ok ()) :
    updated = .ok (ofUpdate machine sink updated).machine := by
  cases updated with
  | ok after => rfl
  | error reason => cases succeeded

theorem ofOutput_eq (machine : Machine) (sink : Sink) (log : List Diagnostic)
    (bytes : List UInt8) :
    ofOutput machine sink log bytes =
      ⟨machine, (sink.write bytes).1, log,
        (sink.write bytes).2.mapError fun reason => .raised (.output reason)⟩ := rfl

theorem ofOutput_failsOnly (machine : Machine) (sink : Sink) (log : List Diagnostic)
    (bytes : List UInt8) :
    FailsOnly ofEffect (ofOutput machine sink log bytes).result := by
  rw [ofOutput_eq]
  cases (sink.write bytes).2 with
  | ok _ => exact .ok _
  | error reason => exact .raised rfl

end Outcome

end RegisterMachine
