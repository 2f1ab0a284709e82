/-
This file describes what a step does before an instruction is executed: it takes a unit of fuel
and decodes the eight bytes at the program counter.
-/

import RegisterMachine.Machine.Step
import RegisterMachine.Proofs.Instruction.Codec
import RegisterMachine.Proofs.Machine.Screening

namespace RegisterMachine

/-- Errors of a fetch. -/
def RuntimeError.ofFetch : RuntimeError → Bool
  | invalidInstruction _ | opcodeNotFound _ | pcOutOfBounds _ | memoryOutOfBounds _ => true
  | invalidBytecode _ | stackOverflow | stackUnderflow | heapOutOfBounds _ | registerNotFound _
  | divideByZero | invalidAddressingMode _ _ | illegalOperation _ | output _
  | fuelExhausted _ => false

theorem RuntimeError.ofDecodeError_ofFetch (reason : DecodeError) :
    RuntimeError.ofFetch (.ofDecodeError reason) := by
  cases reason <;> rfl

namespace Machine

/-- The instruction at the program counter, or why there is none. -/
def nextInstruction (machine : Machine) : Except RuntimeError Instruction :=
  if machine.codeEnd.toNat < machine.pc.toNat + Instruction.byteSize then
    .error (.pcOutOfBounds machine.pc)
  else if imageSize < machine.pc.toNat + Instruction.byteSize then
    .error (.memoryOutOfBounds machine.pc)
  else
    match Instruction.decode? (machine.memory.bytesAt machine.pc.toNat Instruction.byteSize) with
    | some (.ok instruction) => .ok instruction
    | some (.error reason) => .error (.ofDecodeError reason)
    | none => .error (.pcOutOfBounds machine.pc)

theorem nextInstruction_ofFetch {machine : Machine} {error : RuntimeError}
    (refused : machine.nextInstruction = .error error) : error.ofFetch := by
  unfold nextInstruction at refused
  split at refused
  · cases refused
    rfl
  split at refused
  · cases refused
    rfl
  split at refused
  · cases refused
  · cases refused
    exact RuntimeError.ofDecodeError_ofFetch _
  · cases refused
    rfl

/-- The machine about to execute the instruction that was at its program counter. -/
def fetched (machine : Machine) : Machine :=
  { machine with pc := machine.pc + UInt32.ofNat Instruction.byteSize }

theorem advance_eq (address : UInt32) (distance : Nat)
    (fits : address.toNat + distance < 0x100000000) :
    advance address distance = .ok (address + UInt32.ofNat distance) :=
  if_pos fits

/-- A fetch is the next instruction with the program counter past it. -/
theorem fetch_eq (machine : Machine) :
    machine.fetch =
      match machine.nextInstruction with
      | .ok instruction => .ok (instruction, machine.fetched)
      | .error error => .error (.raised error) := by
  unfold fetch nextInstruction
  by_cases inCode : machine.pc.toNat + Instruction.byteSize ≤ machine.codeEnd.toNat
  · rw [if_pos inCode, if_neg (Nat.not_lt_of_le inCode), Memory.read_eq]
    by_cases inImage : machine.pc.toNat + Instruction.byteSize ≤ imageSize
    · rw [if_pos inImage, if_neg (Nat.not_lt_of_le inImage), okBind]
      have codeBound := machine.codeEnd.toNat_lt
      have moved := advance_eq machine.pc Instruction.byteSize (by omega)
      obtain ⟨slot, _, decoded⟩ := Instruction.decode?_slot _
        (machine.memory.bytesAt_length machine.pc.toNat Instruction.byteSize)
      rw [decoded]
      cases Instruction.ofSlot slot with
      | ok instruction => simp only [moved, Abort.liftOk, okBind, pureOk, fetched]
      | error reason => rfl
    · rw [if_neg inImage, if_pos (Nat.lt_of_not_le inImage)]
      rfl
  · rw [if_neg inCode, if_pos (Nat.lt_of_not_le inCode)]
    rfl

/-- The end of an instruction that was found is inside the code and inside the image. -/
theorem nextInstruction_inside {machine : Machine} {instruction : Instruction}
    (next : machine.nextInstruction = .ok instruction) :
    machine.pc.toNat + 8 ≤ machine.codeEnd.toNat ∧ machine.pc.toNat + 8 ≤ imageSize := by
  unfold nextInstruction at next
  split at next
  · cases next
  · rename_i inCode
    split at next
    · cases next
    · rename_i inImage
      exact ⟨Nat.le_of_not_lt inCode, Nat.le_of_not_lt inImage⟩

/-- The program counter of an instruction that was found does not wrap. -/
theorem fetched_pc {machine : Machine} {instruction : Instruction}
    (next : machine.nextInstruction = .ok instruction) :
    machine.fetched.pc.toNat = machine.pc.toNat + 8 := by
  have inCode := (nextInstruction_inside next).1
  have codeBound := machine.codeEnd.toNat_lt
  have eight : (UInt32.ofNat Instruction.byteSize).toNat = 8 := rfl
  rw [fetched, UInt32.toNat_add, eight, Nat.mod_eq_of_lt (by omega)]

/-- A machine whose image begins with code. -/
def ofCode (code : List UInt8) : Machine :=
  { empty none with
    memory := Memory.zero.setBytes 0 code
    codeEnd := UInt32.ofNat code.length }

/-- Fuel after one more unit was taken from it. -/
def spent (machine : Machine) : Machine :=
  { machine with fuel := machine.fuel.map (· - 1) }

/-- Nothing is taken from fuel without a limit. -/
theorem spent_unlimited {machine : Machine} (unlimited : machine.fuel = none) :
    machine.spent = machine := by
  rw [spent, unlimited, Option.map_none, ← unlimited]

/-- Fuel runs out only at zero. -/
theorem consumeFuel_eq (machine : Machine) (left : machine.fuel ≠ some 0) :
    machine.consumeFuel = .ok machine.spent := by
  unfold consumeFuel spent
  cases fuel : machine.fuel with
  | none =>
      simp only [Option.map_none]
      rw [← fuel]
  | some units =>
      have positive : units ≠ 0 := by
        intro zero
        exact left (by rw [fuel, zero])
      simp only [if_neg positive, Option.map_some]

theorem consumeFuel_exhausted (machine : Machine) (limit : UInt32)
    (empty : machine.fuel = some 0) (limited : machine.fuelLimit = some limit) :
    machine.consumeFuel = .error (.raised (.fuelExhausted limit)) := by
  simp only [consumeFuel, empty, if_true, limited]

@[simp] theorem spent_nextInstruction (machine : Machine) :
    machine.spent.nextInstruction = machine.nextInstruction := rfl

end Machine

end RegisterMachine
