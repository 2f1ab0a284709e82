/-
This file says which modes an instruction takes for its operands. An operand of another mode is
refused before the instruction looks at the machine, the destination before the source, and an
instruction that refuses none of its operands fails only when it accesses the machine or the output.
-/

import RegisterMachine.Proofs.Machine.Failure

namespace RegisterMachine

open RuntimeError (ofAccess ofEffect ofExecution)

namespace AddressingMode

/-- The mode of an operand that stands for a register itself. -/
def namesRegister : AddressingMode → Bool
  | registerDirect => true
  | _ => false

/-- The modes of an operand that says where to continue. -/
def namesTarget : AddressingMode → Bool
  | immediateAddress | pcRelative => true
  | _ => false

/-- The modes of an operand that says where a text is. -/
def namesText : AddressingMode → Bool
  | registerIndirect | immediateAddress => true
  | _ => false

/-- The modes of an operand that stands for a value. -/
def hasValue : AddressingMode → Bool
  | registerDirect | immediateInt | immediateAddress | registerIndirect | baseOffset => true
  | pcRelative | absent => false

/-- The modes of an operand that stands for an address. -/
def hasAddress : AddressingMode → Bool
  | immediateAddress | registerIndirect | baseOffset | pcRelative => true
  | registerDirect | immediateInt | absent => false

end AddressingMode

namespace Opcode

open AddressingMode

/-- The modes that an opcode takes for its destination; one without operands ignores the mode. -/
def takesDest : Opcode → AddressingMode → Bool
  | printChr | mov | loadAddr | add | sub | mul | div | mod | and | or | not | push | pop =>
      namesRegister
  | printStr => namesText
  | jz | jnz | jeq | jgt | jge | jlt | jle | jmp | call => namesTarget
  | halt | cmp | ret => fun _ => true

/-- The modes that an opcode takes for its source. -/
def takesSource : Opcode → AddressingMode → Bool
  | loadAddr => hasAddress
  | add | sub | mul | div | mod | and | or => hasValue
  | _ => fun _ => true

theorem takesDest_of_isArithmetic {opcode : Opcode} (computes : opcode.isArithmetic) :
    opcode.takesDest = namesRegister := by
  cases opcode <;> first | rfl | cases computes

theorem takesSource_of_isArithmetic {opcode : Opcode} (computes : opcode.isArithmetic) :
    opcode.takesSource = hasValue := by
  cases opcode <;> first | rfl | cases computes

theorem takesDest_of_jumps {opcode : Opcode} (jumps : opcode.jumps) :
    opcode.takesDest = namesTarget := by
  cases opcode <;> first | rfl | cases jumps

theorem takesSource_of_jumps {opcode : Opcode} (jumps : opcode.jumps) :
    opcode.takesSource = fun _ => true := by
  cases opcode <;> first | rfl | cases jumps

end Opcode

/-- The operand itself unless its mode is taken. -/
def Operand.refused (operand : Operand) (takes : AddressingMode → Bool) : Option Operand :=
  if takes operand.mode then none else some operand

namespace Instruction

open AddressingMode

/-- The operand that an instruction refuses, which is the destination if both have a wrong mode. -/
def refused (instruction : Instruction) : Option Operand :=
  (instruction.dest.refused instruction.opcode.takesDest).or
    (instruction.src.refused instruction.opcode.takesSource)

/-- What a computation does for an instruction: it refuses an operand, or it refuses none and fails
only with errors of one kind. -/
def Screened {α : Type} (instruction : Instruction) (kind : RuntimeError → Bool)
    (refused : Option Operand) (computation : Except (Abort RuntimeError) α) : Prop :=
  match refused with
  | some operand => computation = instruction.refuse operand
  | none => FailsOnly kind computation

variable {α β : Type} {instruction : Instruction} {kind other : RuntimeError → Bool}
  {refused : Option Operand}

namespace Screened

theorem mono {computation : Except (Abort RuntimeError) α}
    (screened : instruction.Screened kind refused computation)
    (includes : ∀ error, kind error → other error) :
    instruction.Screened other refused computation := by
  cases refused with
  | none => exact FailsOnly.mono screened includes
  | some operand => exact screened

theorem failsOnly {computation : Except (Abort RuntimeError) α}
    (screened : instruction.Screened ofEffect refused computation) :
    FailsOnly ofExecution computation := by
  cases refused with
  | none => exact FailsOnly.mono screened RuntimeError.ofExecution_of_ofEffect
  | some operand =>
      have refuses : computation = instruction.refuse operand := screened
      rw [refuses]
      exact .raised rfl

/-- Neither an operand that is refused nor an access is an error of the output. -/
theorem ne_output {computation : Except (Abort RuntimeError) α} {error : RuntimeError}
    (screened : instruction.Screened ofAccess refused computation)
    (failed : computation = .error (.raised error)) (reason : OutputError) :
    error ≠ .output reason := by
  rintro rfl
  cases refused with
  | none =>
      obtain ⟨_, same, access⟩ := screened _ failed
      cases same
      cases access
  | some operand =>
      have refuses : computation = instruction.refuse operand := screened
      rw [refuses] at failed
      cases failed

/-- What follows a screened computation is not reached with an operand that is refused. -/
theorem bind {first : Except (Abort RuntimeError) α} {next : α → Except (Abort RuntimeError) β}
    (screened : instruction.Screened kind refused first)
    (follows : ∀ value, first = .ok value → FailsOnly kind (next value)) :
    instruction.Screened kind refused (first >>= next) := by
  cases refused with
  | none => exact FailsOnly.bind screened follows
  | some operand =>
      have refuses : first = instruction.refuse operand := screened
      rw [refuses]
      rfl

variable {opcode : Opcode} {takesDest takesSource : AddressingMode → Bool}
  {computation : Except (Abort RuntimeError) α}

/-- An instruction that takes every source refuses at most its destination. -/
theorem alone
    (screened : instruction.Screened kind (instruction.dest.refused takesDest) computation)
    (named : instruction.opcode = opcode) (dest : opcode.takesDest = takesDest)
    (src : opcode.takesSource = fun _ => true) :
    instruction.Screened kind instruction.refused computation := by
  have nothing : (instruction.src.refused fun _ => true) = none := rfl
  rw [Instruction.refused, named, dest, src, nothing, Option.or_none]
  exact screened

theorem both
    (screened : instruction.Screened kind
      ((instruction.dest.refused takesDest).or (instruction.src.refused takesSource)) computation)
    (named : instruction.opcode = opcode) (dest : opcode.takesDest = takesDest)
    (src : opcode.takesSource = takesSource) :
    instruction.Screened kind instruction.refused computation := by
  rw [Instruction.refused, named, dest, src]
  exact screened

end Screened

theorem destRegister_screened (instruction : Instruction) :
    instruction.Screened ofAccess (instruction.dest.refused namesRegister)
      instruction.destRegister := by
  unfold destRegister
  cases instruction.dest with
  | registerDirect id => exact .ok id
  | _ => rfl

/-- With a register as its destination, an instruction refuses what it refuses from there on. -/
theorem destRegister_bind_screened {next : UInt8 → Except (Abort RuntimeError) α}
    (follows : ∀ id, instruction.Screened kind refused (next id)) :
    instruction.Screened kind ((instruction.dest.refused namesRegister).or refused)
      (instruction.destRegister >>= next) := by
  unfold destRegister
  cases instruction.dest with
  | registerDirect id => exact follows id
  | _ => rfl

end Instruction

namespace Machine

open AddressingMode Instruction

theorem sourceValue_screened (machine : Machine) (instruction : Instruction) :
    instruction.Screened ofAccess (instruction.src.refused hasValue)
      (machine.sourceValue instruction) := by
  unfold sourceValue
  cases instruction.src with
  | registerDirect id => exact machine.readRegister_failsOnly id
  | immediateInt value => exact .ok value
  | immediateAddress address => exact machine.memory.readWord_failsOnly address
  | registerIndirect id =>
      exact .bind (machine.readRegister_failsOnly id) fun _ _ =>
        machine.memory.readWord_failsOnly _
  | baseOffset base offset =>
      exact .bind (machine.baseOffset_failsOnly base offset) fun _ _ =>
        machine.memory.readWord_failsOnly _
  | pcRelative | absent => rfl

theorem sourceAddress_screened (machine : Machine) (instruction : Instruction) :
    instruction.Screened ofAccess (instruction.src.refused hasAddress)
      (machine.sourceAddress instruction) := by
  unfold sourceAddress
  cases instruction.src with
  | immediateAddress address => exact Memory.check_failsOnly address 1
  | registerIndirect id =>
      exact .bind (machine.readRegister_failsOnly id) fun _ _ => Memory.check_failsOnly _ _
  | baseOffset base offset => exact machine.baseOffset_failsOnly base offset
  | pcRelative offset => exact .ok _
  | registerDirect | immediateInt | absent => rfl

theorem jumpTarget_screened (machine : Machine) (instruction : Instruction) :
    instruction.Screened ofAccess (instruction.dest.refused namesTarget)
      (machine.jumpTarget instruction) := by
  unfold jumpTarget
  cases instruction.dest with
  | immediateAddress | pcRelative => exact .ok _
  | registerDirect | immediateInt | registerIndirect | baseOffset | absent => rfl

theorem textAddress_screened (machine : Machine) (instruction : Instruction) :
    instruction.Screened ofAccess (instruction.dest.refused namesText)
      (machine.textAddress instruction) := by
  unfold textAddress
  cases instruction.dest with
  | registerIndirect id => exact machine.readRegister_failsOnly id
  | immediateAddress address => exact .ok address
  | registerDirect | immediateInt | baseOffset | pcRelative | absent => rfl

/-- A source relative to the program counter, or none, is no reason to fail. -/
theorem move_screened (machine : Machine) (instruction : Instruction) :
    instruction.Screened ofAccess (instruction.dest.refused namesRegister)
      (machine.move instruction) := by
  apply instruction.destRegister_screened.bind
  intro dest _
  have source := machine.sourceValue_screened instruction
  cases src : instruction.src with
  | pcRelative | absent => exact .ok _
  | registerDirect | immediateInt | immediateAddress | registerIndirect | baseOffset =>
      rw [src] at source
      exact FailsOnly.bind source fun value _ => machine.writeRegister_failsOnly dest value

theorem loadAddress_screened (machine : Machine) (instruction : Instruction) :
    instruction.Screened ofAccess
      ((instruction.dest.refused namesRegister).or (instruction.src.refused hasAddress))
      (machine.loadAddress instruction) := by
  apply destRegister_bind_screened
  intro dest
  exact (machine.sourceAddress_screened instruction).bind fun address _ =>
    machine.writeRegister_failsOnly dest address

theorem operation_screened (machine : Machine) (instruction : Instruction)
    (isArithmetic : instruction.opcode.isArithmetic) :
    instruction.Screened ofAccess
      ((instruction.dest.refused namesRegister).or (instruction.src.refused hasValue))
      (machine.operation instruction) := by
  apply destRegister_bind_screened
  intro dest
  apply (machine.sourceValue_screened instruction).bind
  intro right _
  apply FailsOnly.bind (machine.readRegister_failsOnly dest)
  intro left _
  exact .bind (arithmeticResult_failsOnly _ _ _ _ isArithmetic) fun _ _ => .ok _

theorem foundText_screened (machine : Machine) (instruction : Instruction) :
    instruction.Screened ofAccess (instruction.dest.refused namesText)
      (machine.foundText instruction) := by
  apply (machine.textAddress_screened instruction).bind
  intro address _
  exact .bind (machine.memory.readText_failsOnly address) fun _ _ => .ok _

theorem complement_screened (machine : Machine) (instruction : Instruction) :
    instruction.Screened ofAccess (instruction.dest.refused namesRegister)
      (machine.complement instruction) := by
  apply instruction.destRegister_screened.bind
  intro dest _
  exact .bind (machine.readRegister_failsOnly dest) fun value _ =>
    machine.storeResult_failsOnly dest _

theorem jump_screened (machine : Machine) (instruction : Instruction) :
    instruction.Screened ofAccess (instruction.dest.refused namesTarget)
      (machine.jump instruction) :=
  (machine.jumpTarget_screened instruction).bind fun _ _ => .ok _

theorem call_screened (machine : Machine) (instruction : Instruction) :
    instruction.Screened ofAccess (instruction.dest.refused namesTarget)
      (machine.call instruction) := by
  apply (machine.jumpTarget_screened instruction).bind
  intro target _
  exact .bind (machine.push_failsOnly machine.pc) fun _ _ => .ok _

theorem returnFromCall_failsOnly (machine : Machine) :
    FailsOnly ofAccess machine.returnFromCall :=
  .bind machine.pop_failsOnly fun _ _ => .ok _

theorem pushRegister_screened (machine : Machine) (instruction : Instruction) :
    instruction.Screened ofAccess (instruction.dest.refused namesRegister)
      (machine.pushRegister instruction) := by
  apply instruction.destRegister_screened.bind
  intro id _
  exact .bind (machine.readRegister_failsOnly id) fun value _ => machine.push_failsOnly value

theorem popRegister_screened (machine : Machine) (instruction : Instruction) :
    instruction.Screened ofAccess (instruction.dest.refused namesRegister)
      (machine.popRegister instruction) := by
  apply instruction.destRegister_screened.bind
  intro dest _
  apply FailsOnly.bind (writableRegister_failsOnly dest)
  intro _ _
  exact .bind machine.pop_failsOnly fun popped _ => popped.2.writeRegister_failsOnly dest popped.1

theorem Updates.screened {machine : Machine} {instruction : Instruction}
    {updated : Except (Abort RuntimeError) Machine}
    (updates : Updates machine instruction updated) :
    instruction.Screened ofAccess instruction.refused updated := by
  cases updates with
  | move opcode => exact (machine.move_screened instruction).alone opcode rfl rfl
  | loadAddress opcode => exact (machine.loadAddress_screened instruction).both opcode rfl rfl
  | complement opcode => exact (machine.complement_screened instruction).alone opcode rfl rfl
  | compare opcode | halt opcode =>
      rw [Instruction.refused, opcode]
      exact FailsOnly.ok _
  | jump jumps =>
      exact (machine.jump_screened instruction).alone rfl (Opcode.takesDest_of_jumps jumps)
        (Opcode.takesSource_of_jumps jumps)
  | call opcode => exact (machine.call_screened instruction).alone opcode rfl rfl
  | returnFromCall opcode =>
      rw [Instruction.refused, opcode]
      exact machine.returnFromCall_failsOnly
  | push opcode => exact (machine.pushRegister_screened instruction).alone opcode rfl rfl
  | pop opcode => exact (machine.popRegister_screened instruction).alone opcode rfl rfl

theorem ofUpdate_result (machine : Machine) (sink : Sink)
    (updated : Except (Abort RuntimeError) Machine) :
    (Outcome.ofUpdate machine sink updated).result = updated >>= fun _ => .ok () := by
  cases updated <;> rfl

theorem arithmetic_result (machine : Machine) (sink : Sink) (instruction : Instruction) :
    (machine.arithmetic sink instruction).result =
      machine.operation instruction >>= fun (dest, result, flags) =>
        storeResult { machine with flags } dest result >>= fun _ => .ok () := by
  rw [arithmetic_eq]
  cases machine.operation instruction with
  | error reason => rfl
  | ok computed => exact ofUpdate_result _ sink _

theorem printCharacter_result (machine : Machine) (sink : Sink) (instruction : Instruction) :
    (machine.printCharacter sink instruction).result =
      instruction.destRegister >>= fun id => machine.readRegister id >>= fun value =>
        (Outcome.ofOutput machine sink [] [value.toUInt8]).result := by
  unfold printCharacter
  cases instruction.destRegister with
  | error reason => rfl
  | ok id =>
      have reads : Except.bind (.ok id) machine.readRegister = machine.readRegister id := rfl
      rw [okBind, reads]
      cases machine.readRegister id <;> rfl

theorem printText_result (machine : Machine) (sink : Sink) (instruction : Instruction) :
    (machine.printText sink instruction).result =
      machine.foundText instruction >>= fun (address, text, terminated) =>
        (Outcome.ofOutput machine sink (if terminated then [] else [.unterminatedString address])
          text).result := by
  rw [printText_eq]
  cases machine.foundText instruction <;> rfl

theorem arithmetic_screened (machine : Machine) (sink : Sink) (instruction : Instruction)
    (isArithmetic : instruction.opcode.isArithmetic) :
    instruction.Screened ofAccess
      ((instruction.dest.refused namesRegister).or (instruction.src.refused hasValue))
      (machine.arithmetic sink instruction).result := by
  rw [arithmetic_result]
  apply (machine.operation_screened instruction isArithmetic).bind
  intro computed _
  exact .bind (storeResult_failsOnly _ _ _) fun _ _ => .ok _

theorem printCharacter_screened (machine : Machine) (sink : Sink) (instruction : Instruction) :
    instruction.Screened ofEffect (instruction.dest.refused namesRegister)
      (machine.printCharacter sink instruction).result := by
  have destination := instruction.destRegister_screened.mono RuntimeError.ofEffect_of_ofAccess
  rw [printCharacter_result]
  apply destination.bind
  intro id _
  have value := (machine.readRegister_failsOnly id).mono RuntimeError.ofEffect_of_ofAccess
  exact .bind value fun _ _ => Outcome.ofOutput_failsOnly _ _ _ _

theorem printText_screened (machine : Machine) (sink : Sink) (instruction : Instruction) :
    instruction.Screened ofEffect (instruction.dest.refused namesText)
      (machine.printText sink instruction).result := by
  have text := (machine.foundText_screened instruction).mono RuntimeError.ofEffect_of_ofAccess
  rw [printText_result]
  exact text.bind fun _ _ => Outcome.ofOutput_failsOnly _ _ _ _

/-- An instruction refuses an operand in every state of the machine or in none. -/
theorem execute_screened (machine : Machine) (sink : Sink) (instruction : Instruction) :
    instruction.Screened ofEffect instruction.refused
      (machine.execute sink instruction).result := by
  have handled := machine.execute_handled sink instruction
  generalize machine.execute sink instruction = outcome at handled ⊢
  cases handled with
  | printCharacter opcode =>
      exact (machine.printCharacter_screened sink instruction).alone opcode rfl rfl
  | printText opcode => exact (machine.printText_screened sink instruction).alone opcode rfl rfl
  | arithmetic computes =>
      have computed := (machine.arithmetic_screened sink instruction computes).both rfl
        (Opcode.takesDest_of_isArithmetic computes) (Opcode.takesSource_of_isArithmetic computes)
      exact computed.mono RuntimeError.ofEffect_of_ofAccess
  | update updates =>
      have updated := updates.screened.mono RuntimeError.ofEffect_of_ofAccess
      rw [ofUpdate_result]
      exact updated.bind fun _ _ => .ok _

/-- An instruction never ends in a defect, and its errors are those of execution. -/
theorem execute_failsOnly (machine : Machine) (sink : Sink) (instruction : Instruction) :
    FailsOnly ofExecution (machine.execute sink instruction).result :=
  (machine.execute_screened sink instruction).failsOnly

end Machine

end RegisterMachine
