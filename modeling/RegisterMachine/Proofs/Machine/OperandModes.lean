/-
This file lists the operands that make a decoded instruction fail in every state of the machine.
Whether an instruction is refused for a mode, and for which, can be read off its bytes.
-/

import RegisterMachine.Proofs.Instruction.Canonical
import RegisterMachine.Proofs.Machine.Screening

namespace RegisterMachine

namespace Opcode

/-- The destination of an opcode may not have this mode. -/
def WrongDest (opcode : Opcode) (mode : AddressingMode) : Prop :=
  match opcode with
  | printChr | not | push | pop | mov | loadAddr | add | sub | mul | div | mod | and | or =>
      mode ≠ .registerDirect
  | printStr => mode ≠ .registerIndirect ∧ mode ≠ .immediateAddress
  | jz | jnz | jeq | jgt | jge | jlt | jle | jmp | call =>
      mode ≠ .immediateAddress ∧ mode ≠ .pcRelative
  | halt | cmp | ret => False

/-- The source of an opcode may not have this mode. -/
def WrongSource (opcode : Opcode) (mode : AddressingMode) : Prop :=
  match opcode with
  | loadAddr => mode = .registerDirect ∨ mode = .immediateInt
  | add | sub | mul | div | mod | and | or => mode = .pcRelative
  | _ => False

theorem takesDest_eq_false_iff (opcode : Opcode) (mode : AddressingMode) :
    opcode.takesDest mode = false ↔ opcode.WrongDest mode := by
  cases opcode <;> cases mode <;>
    simp [takesDest, WrongDest, AddressingMode.namesRegister, AddressingMode.namesText,
      AddressingMode.namesTarget]

/-- Of the sources that are not taken, those that are missing belong to no decoded instruction. -/
theorem takesSource_eq_false_iff {opcode : Opcode} {mode : AddressingMode}
    (present : 1 < opcode.arity → mode ≠ .absent) :
    opcode.takesSource mode = false ↔ opcode.WrongSource mode := by
  revert present
  cases opcode <;> cases mode <;>
    simp [takesSource, WrongSource, arity, slots, AddressingMode.hasValue,
      AddressingMode.hasAddress]

end Opcode

theorem Operand.mode_eq_absent {operand : Operand} (absent : operand.mode = .absent) :
    operand = .absent := by
  cases operand <;> first | rfl | cases absent

namespace Instruction

/-- The mode of the first operand that is wrong, the destination before the source. -/
def FirstWrong (instruction : Instruction) (mode : AddressingMode) : Prop :=
  instruction.opcode.WrongDest instruction.dest.mode ∧ instruction.dest.mode = mode ∨
    ¬instruction.opcode.WrongDest instruction.dest.mode ∧
      instruction.opcode.WrongSource instruction.src.mode ∧ instruction.src.mode = mode

theorem firstWrong_iff {instruction : Instruction} (complete : instruction.Complete)
    (mode : AddressingMode) :
    instruction.FirstWrong mode ↔ instruction.refused.map Operand.mode = some mode := by
  have dest := instruction.opcode.takesDest_eq_false_iff instruction.dest.mode
  have src : _ ↔ instruction.opcode.WrongSource instruction.src.mode :=
    Opcode.takesSource_eq_false_iff fun used absent =>
      complete.src used (Operand.mode_eq_absent absent)
  rw [FirstWrong, ← dest, ← src, refused, Operand.refused, Operand.refused]
  cases instruction.opcode.takesDest instruction.dest.mode with
  | false => simp
  | true =>
      cases instruction.opcode.takesSource instruction.src.mode with
      | false => simp
      | true => simp

end Instruction

namespace Machine

/-- In whatever state, an instruction is refused for the operand that it refuses. -/
theorem execute_invalidAddressingMode_iff (machine : Machine) (sink : Sink)
    (instruction : Instruction) (opcode : Opcode) (mode : AddressingMode) :
    (machine.execute sink instruction).result =
        .error (.raised (.invalidAddressingMode opcode mode)) ↔
      opcode = instruction.opcode ∧ instruction.refused.map Operand.mode = some mode := by
  have screened := machine.execute_screened sink instruction
  cases refused : instruction.refused with
  | none =>
      rw [refused] at screened
      constructor
      · intro failed
        obtain ⟨error, raised, access⟩ := screened _ failed
        cases raised
        cases access
      · rintro ⟨_, none⟩
        cases none
  | some operand =>
      rw [refused] at screened
      have refuses : (machine.execute sink instruction).result = instruction.refuse operand :=
        screened
      rw [refuses, Instruction.refuse, Except.error.injEq, Abort.raised.injEq,
        RuntimeError.invalidAddressingMode.injEq, Option.map_some, Option.some.injEq]
      exact and_congr_left' eq_comm

/-- A decoded instruction is refused for the mode of its first wrong operand in every state, or,
without such an operand, for no mode in any state. -/
theorem execute_refusal_static {bytes : List UInt8} {instruction : Instruction}
    (decoded : Instruction.decode? bytes = some (.ok instruction)) :
    (∀ mode, instruction.FirstWrong mode ↔ ∀ (machine : Machine) (sink : Sink),
      (machine.execute sink instruction).result =
        .error (.raised (.invalidAddressingMode instruction.opcode mode))) ∧
    ((¬∃ mode, instruction.FirstWrong mode) ↔ ∀ (machine : Machine) (sink : Sink) opcode mode,
      (machine.execute sink instruction).result ≠
        .error (.raised (.invalidAddressingMode opcode mode))) := by
  have complete := Instruction.decode?_complete decoded
  simp only [ne_eq, execute_invalidAddressingMode_iff, Instruction.firstWrong_iff complete,
    true_and]
  constructor
  · intro mode
    constructor
    · intro wrong machine sink
      exact wrong
    · intro always
      exact always (.empty none) .unlimited
  · constructor
    · rintro taken machine sink opcode mode ⟨_, wrong⟩
      exact taken ⟨mode, wrong⟩
    · rintro never ⟨mode, wrong⟩
      exact never (.empty none) .unlimited instruction.opcode mode ⟨rfl, wrong⟩

/-- A sum with a source relative to the program counter is refused, although its destination names
no register. -/
theorem execute_refusal_static_sum :
    Instruction.decode? [4, 20, 0, 8, 0, 0, 0, 0x0E] =
        some (.ok ⟨.add, .registerDirect 20, .pcRelative 8, false, false⟩) ∧
      ∀ (machine : Machine) (sink : Sink),
        (machine.execute sink ⟨.add, .registerDirect 20, .pcRelative 8, false, false⟩).result =
          .error (.raised (.invalidAddressingMode .add .pcRelative)) := by
  have decoded : Instruction.decode? [4, 20, 0, 8, 0, 0, 0, 0x0E] =
      some (.ok ⟨.add, .registerDirect 20, .pcRelative 8, false, false⟩) := rfl
  refine ⟨decoded, ((execute_refusal_static decoded).1 .pcRelative).mp ?_⟩
  exact .inr ⟨fun wrong => wrong rfl, rfl, rfl⟩

end Machine

end RegisterMachine
