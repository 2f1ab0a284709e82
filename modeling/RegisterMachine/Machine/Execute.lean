/-
This file says what each instruction does. Operand modes are checked before anything else.
-/

import RegisterMachine.Machine.Basic
import RegisterMachine.Machine.Sink

namespace RegisterMachine

/-- What an attempt to execute leaves behind, whether it succeeds or not. -/
structure Outcome where
  machine : Machine
  sink : Sink
  log : List Diagnostic
  result : Except (Abort RuntimeError) Unit

namespace Outcome

/-- An update that fails changes nothing. -/
def ofUpdate (machine : Machine) (sink : Sink) (updated : Except (Abort RuntimeError) Machine) :
    Outcome :=
  match updated with
  | .ok machine => ⟨machine, sink, [], .ok ()⟩
  | .error reason => ⟨machine, sink, [], .error reason⟩

/-- Output keeps the bytes that the sink took. -/
def ofOutput (machine : Machine) (sink : Sink) (log : List Diagnostic) (bytes : List UInt8) :
    Outcome :=
  let (sink, result) := sink.write bytes
  ⟨machine, sink, log, result.mapError fun reason => .raised (.output reason)⟩

end Outcome

namespace Instruction

def refuse {α : Type} (instruction : Instruction) (operand : Operand) :
    Except (Abort RuntimeError) α :=
  .error (.raised (.invalidAddressingMode instruction.opcode operand.mode))

/-- A destination is a register itself. -/
def destRegister (instruction : Instruction) : Except (Abort RuntimeError) UInt8 :=
  match instruction.dest with
  | .registerDirect id => .ok id
  | other => instruction.refuse other

end Instruction

namespace Machine

/-- The sum of a base register and a signed offset is an address of the image. -/
def baseOffset (machine : Machine) (base : UInt8) (offset : UInt32) :
    Except (Abort RuntimeError) UInt32 := do
  let base ← machine.readRegister base
  let address := (base.toNat : Int) + offset.toInt32.toInt
  if 0 ≤ address ∧ address < imageSize then return base + offset
  else throw (.raised (.memoryOutOfBounds (base + offset)))

/-- The value of a source; an address stands for the word that it leads to. -/
def sourceValue (machine : Machine) (instruction : Instruction) :
    Except (Abort RuntimeError) UInt32 := do
  match instruction.src with
  | .registerDirect id => machine.readRegister id
  | .immediateInt value => return value
  | .immediateAddress address => machine.memory.readWord address
  | .registerIndirect id => machine.memory.readWord (← machine.readRegister id)
  | .baseOffset base offset => machine.memory.readWord (← machine.baseOffset base offset)
  | other => instruction.refuse other

/-- The address of a source, which must lie in the image unless it is relative to the
program counter. -/
def sourceAddress (machine : Machine) (instruction : Instruction) :
    Except (Abort RuntimeError) UInt32 := do
  match instruction.src with
  | .immediateAddress address => Memory.check address 1
  | .registerIndirect id => Memory.check (← machine.readRegister id) 1
  | .baseOffset base offset => machine.baseOffset base offset
  | .pcRelative offset => return machine.pc + offset
  | other => instruction.refuse other

/-- Where a jump or call leads; the program counter is already past the instruction. -/
def jumpTarget (machine : Machine) (instruction : Instruction) :
    Except (Abort RuntimeError) UInt32 :=
  match instruction.dest with
  | .immediateAddress address => .ok address
  | .pcRelative offset => .ok (machine.pc + offset)
  | other => instruction.refuse other

/-- Conditions read the flags of the last comparison or result. -/
def condition (flags : Flags) : Opcode → Bool
  | .jz | .jeq => flags.zero
  | .jnz => !flags.zero
  | .jgt => !flags.zero && !flags.negative
  | .jge => !flags.negative
  | .jlt => flags.negative
  | .jle => flags.negative || flags.zero
  | _ => true

/-- A stack slot holds one word. -/
def stackSlot : Nat := 4

/-- The stack grows down to the start of its segment. -/
def push (machine : Machine) (value : UInt32) : Except (Abort RuntimeError) Machine := do
  if Segment.stack.base.toNat + stackSlot ≤ machine.sp.toNat then
    let sp := machine.sp - UInt32.ofNat stackSlot
    let memory ← machine.memory.writeWord sp value
    return { machine with memory, sp }
  else throw (.raised .stackOverflow)

/-- The stack shrinks up to the end of its segment. -/
def pop (machine : Machine) : Except (Abort RuntimeError) (UInt32 × Machine) := do
  if machine.sp.toNat + stackSlot ≤ Segment.stack.limit.toNat then
    let value ← machine.memory.readWord machine.sp
    return (value, { machine with sp := machine.sp + UInt32.ofNat stackSlot })
  else throw (.raised .stackUnderflow)

/-- A result of signed arithmetic that is no signed word overflows. -/
def overflows (result : Int) : Bool :=
  result < -0x80000000 || 0x80000000 ≤ result

/-- The result of an arithmetic or logic operation and the flags it sets by itself. -/
def arithmeticResult (opcode : Opcode) (flags : Flags) (left right : UInt32) :
    Except (Abort RuntimeError) (UInt32 × Flags) :=
  match opcode with
  | .add =>
      .ok (left + right, { flags with
        carry := 0x100000000 ≤ left.toNat + right.toNat
        overflow := overflows (left.toInt32.toInt + right.toInt32.toInt) })
  | .sub =>
      .ok (left - right, { flags with
        carry := left.toNat < right.toNat
        overflow := overflows (left.toInt32.toInt - right.toInt32.toInt) })
  | .mul => .ok (left * right, flags)
  | .div => if right = 0 then .error (.raised .divideByZero) else .ok (left / right, flags)
  | .mod => if right = 0 then .error (.raised .divideByZero) else .ok (left % right, flags)
  | .and => .ok (left &&& right, flags)
  | .or => .ok (left ||| right, flags)
  | _ => .error (.defect .notArithmetic)

/-- A result goes to its register, and the flags show whether it is zero or negative. -/
def storeResult (machine : Machine) (dest : UInt8) (result : UInt32) :
    Except (Abort RuntimeError) Machine := do
  let machine ← machine.writeRegister dest result
  return { machine with flags := machine.flags.afterResult result }

/-- Carry and overflow are set before the result is stored. -/
def arithmetic (machine : Machine) (sink : Sink) (instruction : Instruction) : Outcome :=
  let computed : Except (Abort RuntimeError) (UInt8 × UInt32 × Flags) := do
    let dest ← instruction.destRegister
    let right ← machine.sourceValue instruction
    let left ← machine.readRegister dest
    return (dest, ← arithmeticResult instruction.opcode machine.flags left right)
  match computed with
  | .error reason => ⟨machine, sink, [], .error reason⟩
  | .ok (dest, result, flags) =>
      let flagged := { machine with flags }
      .ofUpdate flagged sink (flagged.storeResult dest result)

def complement (machine : Machine) (instruction : Instruction) :
    Except (Abort RuntimeError) Machine := do
  let dest ← instruction.destRegister
  let value ← machine.readRegister dest
  machine.storeResult dest (~~~value)

/-- A source relative to the program counter, or none, leaves the destination as it is. -/
def move (machine : Machine) (instruction : Instruction) :
    Except (Abort RuntimeError) Machine := do
  let dest ← instruction.destRegister
  match instruction.src with
  | .pcRelative _ | .absent => return machine
  | _ =>
      let value ← machine.sourceValue instruction
      machine.writeRegister dest value

def loadAddress (machine : Machine) (instruction : Instruction) :
    Except (Abort RuntimeError) Machine := do
  let dest ← instruction.destRegister
  let address ← machine.sourceAddress instruction
  machine.writeRegister dest address

/-- The first two registers are compared as signed words. -/
def compare (machine : Machine) : Machine :=
  let left := machine.general[0].toInt32.toInt
  let right := machine.general[1].toInt32.toInt
  { machine with flags := { machine.flags with zero := left = right, negative := left < right } }

def jump (machine : Machine) (instruction : Instruction) :
    Except (Abort RuntimeError) Machine := do
  let target ← machine.jumpTarget instruction
  return if condition machine.flags instruction.opcode then { machine with pc := target }
    else machine

def call (machine : Machine) (instruction : Instruction) :
    Except (Abort RuntimeError) Machine := do
  let target ← machine.jumpTarget instruction
  let machine ← machine.push machine.pc
  return { machine with pc := target }

def returnFromCall (machine : Machine) : Except (Abort RuntimeError) Machine := do
  let (target, machine) ← machine.pop
  return { machine with pc := target }

def pushRegister (machine : Machine) (instruction : Instruction) :
    Except (Abort RuntimeError) Machine := do
  let id ← instruction.destRegister
  let value ← machine.readRegister id
  machine.push value

/-- The destination is checked before the stack moves. -/
def popRegister (machine : Machine) (instruction : Instruction) :
    Except (Abort RuntimeError) Machine := do
  let dest ← instruction.destRegister
  let _ ← writableRegister dest
  let (value, machine) ← machine.pop
  machine.writeRegister dest value

/-- The lowest byte of a register is written. -/
def printCharacter (machine : Machine) (sink : Sink) (instruction : Instruction) : Outcome :=
  match instruction.destRegister.bind machine.readRegister with
  | .error reason => ⟨machine, sink, [], .error reason⟩
  | .ok value => .ofOutput machine sink [] [value.toUInt8]

def textAddress (machine : Machine) (instruction : Instruction) :
    Except (Abort RuntimeError) UInt32 :=
  match instruction.dest with
  | .registerIndirect id => machine.readRegister id
  | .immediateAddress address => .ok address
  | other => instruction.refuse other

/-- A text that the end of the image cuts short is reported and written all the same. -/
def printText (machine : Machine) (sink : Sink) (instruction : Instruction) : Outcome :=
  let found : Except (Abort RuntimeError) (UInt32 × List UInt8 × Bool) := do
    let address ← machine.textAddress instruction
    return (address, ← machine.memory.readText address)
  match found with
  | .error reason => ⟨machine, sink, [], .error reason⟩
  | .ok (address, text, terminated) =>
      .ofOutput machine sink (if terminated then [] else [.unterminatedString address]) text

/-- The effect of one instruction on a machine whose program counter is already past it. -/
def execute (machine : Machine) (sink : Sink) (instruction : Instruction) : Outcome :=
  let update := Outcome.ofUpdate machine sink
  match instruction.opcode with
  | .printChr => machine.printCharacter sink instruction
  | .printStr => machine.printText sink instruction
  | .mov => update (machine.move instruction)
  | .loadAddr => update (machine.loadAddress instruction)
  | .add | .sub | .mul | .div | .mod | .and | .or => machine.arithmetic sink instruction
  | .not => update (machine.complement instruction)
  | .cmp => update (.ok machine.compare)
  | .jz | .jnz | .jeq | .jgt | .jge | .jlt | .jle | .jmp => update (machine.jump instruction)
  | .call => update (machine.call instruction)
  | .ret => update machine.returnFromCall
  | .push => update (machine.pushRegister instruction)
  | .pop => update (machine.popRegister instruction)
  | .halt => update (.ok { machine with status := .halted })

end Machine

end RegisterMachine
