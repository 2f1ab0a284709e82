/-
This file separates what instructions work on from what the machine keeps about a program: its
status, its fault, the end of its code and its fuel. No instruction reads these, and only a halt
changes one of them, the status.
-/

import RegisterMachine.Proofs.Machine.Failure
import RegisterMachine.Proofs.Machine.Stack

namespace RegisterMachine

namespace Machine

/-- What a machine keeps about the program that it executes. -/
structure Bookkeeping where
  status : Status
  fault : Option Fault
  codeEnd : UInt32
  fuelLimit : Option UInt32
  fuel : Option UInt32

def bookkeeping (machine : Machine) : Bookkeeping :=
  ⟨machine.status, machine.fault, machine.codeEnd, machine.fuelLimit, machine.fuel⟩

/-- The machine with other books. -/
def keeping (machine : Machine) (books : Bookkeeping) : Machine :=
  { machine with
    status := books.status
    fault := books.fault
    codeEnd := books.codeEnd
    fuelLimit := books.fuelLimit
    fuel := books.fuel }

/-- The books after an instruction that succeeds. -/
def Bookkeeping.after (books : Bookkeeping) (opcode : Opcode) : Bookkeeping :=
  { books with status := if opcode = .halt then .halted else books.status }

theorem Bookkeeping.after_other (books : Bookkeeping) {opcode : Opcode} (other : opcode ≠ .halt) :
    books.after opcode = books := by
  rw [after, if_neg other]

/-- A change of results passes through a sequence. -/
theorem bind_map {ε α β : Type} (first : Except ε α) {next changed : α → Except ε β}
    {change : β → β} (passes : ∀ value, changed value = (next value).map change) :
    (first >>= changed) = (first >>= next).map change := by
  cases first with
  | error reason => rfl
  | ok value => exact passes value

section Handlers

variable (machine : Machine) (books : Bookkeeping) (instruction : Instruction)

-- What only reads the machine does not see the books.

theorem foundText_keeping :
    (machine.keeping books).foundText instruction = machine.foundText instruction := rfl

theorem operation_keeping :
    (machine.keeping books).operation instruction = machine.operation instruction := rfl

-- What changes the machine leaves the books as they are.

theorem writeRegister_keeping (id : UInt8) (value : UInt32) :
    (machine.keeping books).writeRegister id value =
      (machine.writeRegister id value).map (·.keeping books) := by
  rw [writeRegister_eq, writeRegister_eq]
  cases writableRegister id <;> rfl

theorem storeResult_keeping (id : UInt8) (value : UInt32) :
    (machine.keeping books).storeResult id value =
      (machine.storeResult id value).map (·.keeping books) := by
  unfold storeResult
  rw [writeRegister_keeping]
  cases machine.writeRegister id value <;> rfl

theorem push_keeping (value : UInt32) :
    (machine.keeping books).push value = (machine.push value).map (·.keeping books) := by
  rw [push_eq, push_eq]
  change (if machine.sp.toNat < _ then _ else if machine.sp.toNat ≤ _ then _ else _) = _
  split
  · rfl
  · split <;> rfl

theorem pop_keeping :
    (machine.keeping books).pop =
      machine.pop.map fun popped => (popped.1, popped.2.keeping books) := by
  rw [pop_eq, pop_eq]
  change (if machine.sp.toNat + _ ≤ _ then _ else _) = _
  split <;> rfl

theorem move_keeping :
    (machine.keeping books).move instruction =
      (machine.move instruction).map (·.keeping books) := by
  apply bind_map
  intro id
  have moves : (machine.sourceValue instruction >>= (machine.keeping books).writeRegister id) =
      (machine.sourceValue instruction >>= machine.writeRegister id).map (·.keeping books) :=
    bind_map _ (machine.writeRegister_keeping books id)
  cases instruction.src with
  | pcRelative | absent => rfl
  | registerDirect | immediateInt | immediateAddress | registerIndirect | baseOffset => exact moves

theorem loadAddress_keeping :
    (machine.keeping books).loadAddress instruction =
      (machine.loadAddress instruction).map (·.keeping books) :=
  bind_map _ fun id => bind_map _ (machine.writeRegister_keeping books id)

theorem complement_keeping :
    (machine.keeping books).complement instruction =
      (machine.complement instruction).map (·.keeping books) :=
  bind_map _ fun id => bind_map _ fun value => machine.storeResult_keeping books id (~~~value)

theorem jump_keeping :
    (machine.keeping books).jump instruction =
      (machine.jump instruction).map (·.keeping books) := by
  apply bind_map
  intro target
  change Except.ok (if condition machine.flags instruction.opcode then _ else _) = Except.ok _
  split <;> rfl

theorem call_keeping :
    (machine.keeping books).call instruction =
      (machine.call instruction).map (·.keeping books) := by
  apply bind_map
  intro target
  change ((machine.keeping books).push machine.pc >>= _) = _
  rw [push_keeping]
  cases machine.push machine.pc <;> rfl

theorem returnFromCall_keeping :
    (machine.keeping books).returnFromCall = machine.returnFromCall.map (·.keeping books) := by
  unfold returnFromCall
  rw [pop_keeping]
  cases machine.pop <;> rfl

theorem pushRegister_keeping :
    (machine.keeping books).pushRegister instruction =
      (machine.pushRegister instruction).map (·.keeping books) :=
  bind_map _ fun _ => bind_map _ (machine.push_keeping books)

theorem popRegister_keeping :
    (machine.keeping books).popRegister instruction =
      (machine.popRegister instruction).map (·.keeping books) := by
  apply bind_map
  intro id
  apply bind_map
  intro register
  rw [pop_keeping]
  cases machine.pop with
  | error reason => rfl
  | ok popped => exact popped.2.writeRegister_keeping books id popped.1

end Handlers

end Machine

namespace Outcome

open Machine (Bookkeeping)

/-- The outcome with other books. -/
def keeping (outcome : Outcome) (books : Bookkeeping) : Outcome :=
  { outcome with machine := outcome.machine.keeping books }

theorem ofUpdate_keeping (machine : Machine) (books : Bookkeeping) (sink : Sink)
    (updated : Except (Abort RuntimeError) Machine) :
    ofUpdate (machine.keeping books) sink (updated.map (·.keeping books)) =
      (ofUpdate machine sink updated).keeping books := by
  cases updated <;> rfl

end Outcome

namespace Machine

section Execution

variable (machine : Machine) (books : Bookkeeping) (sink : Sink) (instruction : Instruction)

theorem printCharacter_keeping :
    (machine.keeping books).printCharacter sink instruction =
      (machine.printCharacter sink instruction).keeping books := by
  have reads : instruction.destRegister.bind (machine.keeping books).readRegister =
      instruction.destRegister.bind machine.readRegister := rfl
  unfold printCharacter
  rw [reads]
  cases instruction.destRegister.bind machine.readRegister <;> rfl

theorem printText_keeping :
    (machine.keeping books).printText sink instruction =
      (machine.printText sink instruction).keeping books := by
  rw [printText_eq, printText_eq, foundText_keeping]
  cases machine.foundText instruction <;> rfl

theorem arithmetic_keeping :
    (machine.keeping books).arithmetic sink instruction =
      (machine.arithmetic sink instruction).keeping books := by
  rw [arithmetic_eq, arithmetic_eq, operation_keeping]
  cases machine.operation instruction with
  | error reason => rfl
  | ok values =>
      obtain ⟨dest, result, flags⟩ := values
      have stored := storeResult_keeping { machine with flags } books dest result
      change Outcome.ofUpdate (keeping { machine with flags } books) sink
        ((keeping { machine with flags } books).storeResult dest result) = _
      rw [stored]
      exact Outcome.ofUpdate_keeping _ _ _ _

/-- An instruction does the same whatever the books are, and only a halt makes an entry. -/
theorem execute_keeping :
    (machine.keeping books).execute sink instruction =
      (machine.execute sink instruction).keeping (books.after instruction.opcode) := by
  by_cases halts : instruction.opcode = .halt
  · unfold execute
    rw [halts]
    rfl
  · rw [books.after_other halts]
    unfold execute
    cases opcode : instruction.opcode
    case printChr => exact machine.printCharacter_keeping books sink instruction
    case printStr => exact machine.printText_keeping books sink instruction
    case add | sub | mul | div | mod | and | or =>
      exact machine.arithmetic_keeping books sink instruction
    case halt => exact absurd opcode halts
    all_goals dsimp only
    case mov => rw [move_keeping, Outcome.ofUpdate_keeping]
    case loadAddr => rw [loadAddress_keeping, Outcome.ofUpdate_keeping]
    case not => rw [complement_keeping, Outcome.ofUpdate_keeping]
    case cmp => rfl
    case jz | jnz | jeq | jgt | jge | jlt | jle | jmp =>
      rw [jump_keeping, Outcome.ofUpdate_keeping]
    case call => rw [call_keeping, Outcome.ofUpdate_keeping]
    case ret => rw [returnFromCall_keeping, Outcome.ofUpdate_keeping]
    case push => rw [pushRegister_keeping, Outcome.ofUpdate_keeping]
    case pop => rw [popRegister_keeping, Outcome.ofUpdate_keeping]

/-- The books after an instruction, whether it succeeds or not. -/
theorem execute_books :
    let after := (machine.execute sink instruction).machine
    after.status = (if instruction.opcode = .halt then .halted else machine.status) ∧
      after.fault = machine.fault ∧ after.codeEnd = machine.codeEnd ∧
      after.fuelLimit = machine.fuelLimit ∧ after.fuel = machine.fuel := by
  have same := machine.execute_keeping machine.bookkeeping sink instruction
  change machine.execute sink instruction = _ at same
  intro after
  dsimp only [after]
  rw [same]
  exact ⟨rfl, rfl, rfl, rfl, rfl⟩

end Execution

end Machine

end RegisterMachine
