/-
This file says what the instructions that are not of the stack make of a machine: they change the
register that they name, or at most the program counter, the flags and the status.
-/

import RegisterMachine.Proofs.Machine.Executed

namespace RegisterMachine

/-- The opcodes whose destination is a register that they change. -/
def Opcode.assigns : Opcode → Bool
  | mov | loadAddr | add | sub | mul | div | mod | and | or | not | pop => true
  | _ => false

theorem Opcode.assigns_of_setsResult {opcode : Opcode} (sets : opcode.setsResult) :
    opcode.assigns := by
  revert sets
  cases opcode <;> decide

theorem Opcode.assigns_of_moves {opcode : Opcode} (moves : opcode = .mov ∨ opcode = .loadAddr) :
    opcode.assigns := by
  rcases moves with rfl | rfl <;> rfl

namespace Machine

/-- What an instruction that is not of the stack can make of a machine. -/
inductive Changed (machine : Machine) (instruction : Instruction) : Machine → Prop
  | register (register : Register) (value : UInt32) (flags : Flags)
      (assigns : instruction.opcode.assigns)
      (dest : instruction.dest = .registerDirect register.id) (writable : register ≠ .hp) :
      Changed machine instruction { machine.assign register value with flags }
  | state (pc : UInt32) (flags : Flags) (status : Status) :
      Changed machine instruction { machine with pc, flags, status }

theorem Changed.same (machine : Machine) (instruction : Instruction) :
    Changed machine instruction machine :=
  .state machine.pc machine.flags machine.status

theorem Executed.changed {machine after : Machine} {sink sinkAfter : Sink}
    {instruction : Instruction} (executed : Executed machine sink instruction after sinkAfter)
    (others : instruction.opcode.usesStack = false) : Changed machine instruction after := by
  cases executed with
  | printed | ignored | passed => exact .same machine instruction
  | assigned register value opcode dest writable =>
      exact .register register value machine.flags (Opcode.assigns_of_moves opcode) dest writable
  | computed register result flags sets dest writable =>
      exact .register register result _ (Opcode.assigns_of_setsResult sets) dest writable
  | compared => exact .state machine.pc _ machine.status
  | jumped target => exact .state target machine.flags machine.status
  | accessed access =>
      rw [access.usesStack] at others
      cases others
  | halted => exact .state machine.pc machine.flags .halted

/-- Whether it succeeds or not, an instruction that is not of the stack makes no more of a machine
than that. -/
theorem execute_changed (machine : Machine) (sink : Sink) {instruction : Instruction}
    (others : instruction.opcode.usesStack = false) :
    Changed machine instruction (machine.execute sink instruction).machine := by
  cases result : (machine.execute sink instruction).result with
  | ok value => exact (execute_executed result).changed others
  | error reason =>
      obtain ⟨error, raised, _⟩ := execute_failsOnly machine sink instruction reason result
      rw [raised] at result
      obtain ⟨⟨flags, same, _⟩, _⟩ := execute_failed result
      rw [same]
      exact .state machine.pc flags machine.status

end Machine

end RegisterMachine
