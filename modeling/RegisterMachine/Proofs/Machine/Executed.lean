/-
This file lists what an instruction that succeeds makes of a machine, by the handler of its opcode.
What single instructions change or keep is read off this list.
-/

import Mathlib.Order.Basic
import RegisterMachine.Proofs.Machine.FailedStep
import RegisterMachine.Proofs.Machine.StackAccess

namespace RegisterMachine

namespace Opcode

/-- The opcodes that set the flags of comparisons to those of their result. -/
def setsResult (opcode : Opcode) : Bool :=
  opcode.isArithmetic || opcode = .not

/-- The opcodes that write to the output. -/
def prints : Opcode → Bool
  | printChr | printStr => true
  | _ => false

end Opcode

namespace Machine

/-- What an instruction that succeeds makes of a machine and of its output. The program counter of
the machine is already past the instruction. -/
inductive Executed (machine : Machine) (sink : Sink) (instruction : Instruction) :
    Machine → Sink → Prop
  | printed (text : List UInt8) (prints : instruction.opcode.prints)
      (one : instruction.opcode = .printChr → text.length = 1) :
      Executed machine sink instruction machine (sink.extended text)
  | ignored (opcode : instruction.opcode = .mov) : Executed machine sink instruction machine sink
  | assigned (register : Register) (value : UInt32)
      (opcode : instruction.opcode = .mov ∨ instruction.opcode = .loadAddr)
      (dest : instruction.dest = .registerDirect register.id) (writable : register ≠ .hp) :
      Executed machine sink instruction (machine.assign register value) sink
  | computed (register : Register) (result : UInt32) (flags : Flags)
      (sets : instruction.opcode.setsResult)
      (dest : instruction.dest = .registerDirect register.id) (writable : register ≠ .hp)
      (others : instruction.opcode ≠ .add → instruction.opcode ≠ .sub → flags = machine.flags) :
      Executed machine sink instruction
        { machine.assign register result with flags := flags.afterResult result } sink
  | compared (opcode : instruction.opcode = .cmp) :
      Executed machine sink instruction machine.compare sink
  | jumped (target : UInt32) (jumps : instruction.opcode.jumps)
      (taken : condition machine.flags instruction.opcode) :
      Executed machine sink instruction { machine with pc := target } sink
  | passed (jumps : instruction.opcode.jumps)
      (missed : condition machine.flags instruction.opcode = false) :
      Executed machine sink instruction machine sink
  | accessed {slot pointer : UInt32} {after : Machine}
      (access : StackAccess machine instruction slot pointer after) :
      Executed machine sink instruction after sink
  | halted (opcode : instruction.opcode = .halt) :
      Executed machine sink instruction { machine with status := .halted } sink

/-- A write that succeeds assigns a register that may be written. -/
theorem writeRegister_ok {machine after : Machine} {id : UInt8} {value : UInt32}
    (written : machine.writeRegister id value = .ok after) :
    ∃ register : Register, id = register.id ∧ register ≠ .hp ∧
      after = machine.assign register value := by
  rw [writeRegister_eq] at written
  cases found : writableRegister id with
  | error reason =>
      rw [found] at written
      cases written
  | ok register =>
      rw [found] at written
      cases written
      obtain ⟨named, notHp⟩ := writableRegister_ok found
      exact ⟨register, named, notHp, rfl⟩

section Handlers

variable {machine after : Machine} {sink : Sink} {instruction : Instruction}

/-- An instruction that has a text to print is one that prints, and a character is one byte. -/
theorem Prints.prints {text : List UInt8} (prints : machine.Prints instruction text) :
    instruction.opcode.prints ∧ (instruction.opcode = .printChr → text.length = 1) := by
  cases prints with
  | character register opcode =>
      rw [opcode]
      exact ⟨rfl, fun _ => rfl⟩
  | textAt address opcode | textOf register opcode =>
      rw [opcode]
      exact ⟨rfl, nofun⟩

theorem printing_executed {outcome : Outcome}
    (printing : machine.Printing sink instruction outcome) (succeeded : outcome.result = .ok ()) :
    Executed machine sink instruction outcome.machine outcome.sink := by
  cases printing with
  | refused => cases succeeded
  | found text log prints =>
      obtain ⟨opcode, one⟩ := prints.prints
      rw [Outcome.ofOutput_eq] at succeeded ⊢
      dsimp only at succeeded ⊢
      rw [Sink.write_ok (mapErrorOk succeeded)]
      exact .printed text opcode one

/-- A result that was stored is the value of its register, and the flags are those of the result. -/
theorem storeResult_executed {id : UInt8} {result : UInt32} {flags : Flags}
    (sets : instruction.opcode.setsResult) (found : instruction.destRegister = .ok id)
    (others : instruction.opcode ≠ .add → instruction.opcode ≠ .sub → flags = machine.flags)
    (stored : storeResult { machine with flags } id result = .ok after) :
    Executed machine sink instruction after sink := by
  obtain ⟨written, placed, returned⟩ := bindOk stored
  obtain ⟨register, named, notHp, same⟩ := writeRegister_ok placed
  have dest := Instruction.destRegister_ok found
  rw [named] at dest
  rw [← Except.ok.inj returned, same]
  exact .computed register result flags sets dest notHp others

theorem arithmetic_executed (computes : instruction.opcode.isArithmetic)
    (succeeded : (machine.arithmetic sink instruction).result = .ok ()) :
    Executed machine sink instruction (machine.arithmetic sink instruction).machine
      (machine.arithmetic sink instruction).sink := by
  rw [arithmetic_eq] at succeeded ⊢
  cases computed : machine.operation instruction with
  | error reason =>
      rw [computed] at succeeded
      cases succeeded
  | ok values =>
      obtain ⟨id, result, flags⟩ := values
      obtain ⟨left, right, found, _, _, value⟩ := operation_ok computed
      obtain ⟨_, _, others⟩ := arithmeticResult_flags value
      rw [computed] at succeeded
      dsimp only at succeeded ⊢
      cases stored : storeResult { machine with flags } id result with
      | error reason =>
          rw [stored] at succeeded
          cases succeeded
      | ok after =>
          refine storeResult_executed (by rw [Opcode.setsResult, computes]; rfl) found ?_ stored
          exact fun notSum notDifference => others (not_or.mpr ⟨notSum, notDifference⟩)

theorem move_executed (opcode : instruction.opcode = .mov)
    (moved : machine.move instruction = .ok after) :
    Executed machine sink instruction after sink := by
  obtain ⟨id, found, moved⟩ := bindOk moved
  have dest := Instruction.destRegister_ok found
  cases source : instruction.src with
  | pcRelative | absent =>
      rw [source] at moved
      cases moved
      exact .ignored opcode
  | registerDirect | immediateInt | immediateAddress | registerIndirect | baseOffset =>
      rw [source] at moved
      obtain ⟨value, _, written⟩ := bindOk moved
      obtain ⟨register, named, notHp, same⟩ := writeRegister_ok written
      rw [named] at dest
      rw [same]
      exact .assigned register value (.inl opcode) dest notHp

theorem loadAddress_executed (opcode : instruction.opcode = .loadAddr)
    (loaded : machine.loadAddress instruction = .ok after) :
    Executed machine sink instruction after sink := by
  obtain ⟨id, found, loaded⟩ := bindOk loaded
  obtain ⟨address, _, written⟩ := bindOk loaded
  obtain ⟨register, named, notHp, same⟩ := writeRegister_ok written
  have dest := Instruction.destRegister_ok found
  rw [named] at dest
  rw [same]
  exact .assigned register address (.inr opcode) dest notHp

theorem complement_executed (opcode : instruction.opcode = .not)
    (complemented : machine.complement instruction = .ok after) :
    Executed machine sink instruction after sink := by
  obtain ⟨id, found, complemented⟩ := bindOk complemented
  obtain ⟨value, _, stored⟩ := bindOk complemented
  refine storeResult_executed ?_ found (fun _ _ => rfl) stored
  rw [opcode]
  rfl

theorem jump_executed (jumps : instruction.opcode.jumps)
    (jumped : machine.jump instruction = .ok after) :
    Executed machine sink instruction after sink := by
  obtain ⟨target, _, returned⟩ := bindOk jumped
  rw [← Except.ok.inj returned]
  by_cases taken : condition machine.flags instruction.opcode
  · rw [if_pos taken]
    exact .jumped target jumps taken
  · rw [if_neg taken]
    exact .passed jumps (Bool.eq_false_iff.mpr taken)

/-- An instruction that succeeds makes of a machine what its handler does. -/
theorem execute_executed (succeeded : (machine.execute sink instruction).result = .ok ()) :
    Executed machine sink instruction (machine.execute sink instruction).machine
      (machine.execute sink instruction).sink := by
  have handled := machine.execute_handled sink instruction
  generalize machine.execute sink instruction = outcome at succeeded handled ⊢
  cases handled with
  | printCharacter opcode =>
      exact printing_executed (machine.printCharacter_printing sink opcode) succeeded
  | printText opcode => exact printing_executed (machine.printText_printing sink opcode) succeeded
  | arithmetic computes => exact arithmetic_executed computes succeeded
  | update updates =>
      have done := Outcome.ofUpdate_ok succeeded
      rename_i updated
      obtain ⟨after, same⟩ : ∃ after, updated = .ok after := ⟨_, done⟩
      subst same
      change Executed machine sink instruction after sink
      generalize whole : Except.ok after = computed at updates
      cases updates with
      | move opcode => exact move_executed opcode whole.symm
      | loadAddress opcode => exact loadAddress_executed opcode whole.symm
      | complement opcode => exact complement_executed opcode whole.symm
      | compare opcode =>
          cases whole
          exact .compared opcode
      | jump jumps => exact jump_executed jumps whole.symm
      | call opcode =>
          obtain ⟨_, _, access⟩ := call_access opcode whole.symm
          exact .accessed access
      | returnFromCall opcode =>
          obtain ⟨_, _, access⟩ := returnFromCall_access opcode whole.symm
          exact .accessed access
      | push opcode =>
          obtain ⟨_, _, access⟩ := pushRegister_access opcode whole.symm
          exact .accessed access
      | pop opcode =>
          obtain ⟨_, _, access⟩ := popRegister_access opcode whole.symm
          exact .accessed access
      | halt opcode =>
          cases whole
          exact .halted opcode

end Handlers

end Machine

end RegisterMachine
