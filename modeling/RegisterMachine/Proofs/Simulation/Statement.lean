/-
This file gives source instructions a meaning of their own, without encodings and addressing modes.
A statement is an instruction whose names are replaced by addresses, and its effect says what it
does to a machine or which error it raises. Flags are described by the numbers that words stand for,
and no handler of the machine is used.
-/

import RegisterMachine.Proofs.Layout.Address
import RegisterMachine.Proofs.Machine.Arithmetic

namespace RegisterMachine.Source

/-- What an operand stands for once the addresses are known. -/
inductive Meaning where
  | register (named : Register)
  | number (value : UInt32)
  | address (place : UInt32)
  deriving DecidableEq

namespace Meaning

/-- The value of a source: an address stands for the word that is stored there. -/
def value (machine : Machine) : Meaning → Except RuntimeError UInt32
  | register named => .ok (machine.valueOf named)
  | number value => .ok value
  | address place =>
      if place.toNat + 4 ≤ imageSize then .ok (machine.memory.wordAt place.toNat)
      else .error (.memoryOutOfBounds place)

/-- The address that an address slot gives: a register holds it, and anything else is it. -/
def location (machine : Machine) : Meaning → UInt32
  | register named => machine.valueOf named
  | number value => value
  | address place => place

end Meaning

/-- Names and string operands stand for their addresses in the program. -/
def Operand.meaning? (interner : Interner) (lines : List Line) : Operand → Option Meaning
  | .register named => some (.register named)
  | .integer value => some (.number value)
  | .char byte => some (.number byte.toUInt32)
  | .string text => (literalAddress? interner lines text).map .address
  | .symbol name => (symbolAddress? interner lines name).map .address
  | .absent => none

def Operand.register? : Operand → Option Register
  | .register named => some named
  | _ => none

/-- Jumps and calls lead to the address of a name. -/
def Operand.target? (interner : Interner) (lines : List Line) : Operand → Option UInt32
  | .symbol name => symbolAddress? interner lines name
  | _ => none

/-- The operations of arithmetic and logic on two words. -/
inductive Operation where
  | add
  | sub
  | mul
  | div
  | mod
  | and
  | or
  deriving DecidableEq

namespace Operation

def opcode : Operation → Opcode
  | add => .add
  | sub => .sub
  | mul => .mul
  | div => .div
  | mod => .mod
  | and => .and
  | or => .or

/-- Only sums and differences set the carry and the overflow. The carry is about the numbers of the
two words and the overflow about their signed readings. -/
def compute (flags : Flags) (left right : UInt32) :
    Operation → Except RuntimeError (UInt32 × Flags)
  | add =>
      .ok (left + right, { flags with
        carry := 0x100000000 ≤ left.toNat + right.toNat
        overflow := ¬Word.HoldsSigned (left.toInt32.toInt + right.toInt32.toInt) })
  | sub =>
      .ok (left - right, { flags with
        carry := left.toNat < right.toNat
        overflow := ¬Word.HoldsSigned (left.toInt32.toInt - right.toInt32.toInt) })
  | mul => .ok (left * right, flags)
  | div => if right = 0 then .error .divideByZero else .ok (left / right, flags)
  | mod => if right = 0 then .error .divideByZero else .ok (left % right, flags)
  | and => .ok (left &&& right, flags)
  | or => .ok (left ||| right, flags)

end Operation

/-- A result shows whether it is zero and whether its signed reading is negative. -/
def resultFlags (flags : Flags) (result : UInt32) : Flags :=
  { flags with
    zero := result = 0
    negative := result.toInt32.toInt < 0 }

/-- A comparison shows whether the first two registers are equal, and whether the first is less than
the second as a signed number. -/
def comparisonFlags (machine : Machine) : Flags :=
  { machine.flags with
    zero := machine.valueOf .r0 = machine.valueOf .r1
    negative := (machine.valueOf .r0).toInt32.toInt < (machine.valueOf .r1).toInt32.toInt }

/-- When a jump is taken. -/
inductive Condition where
  | always
  | zero
  | nonzero
  | equal
  | greater
  | atLeast
  | less
  | atMost
  deriving DecidableEq

namespace Condition

def opcode : Condition → Opcode
  | always => .jmp
  | zero => .jz
  | nonzero => .jnz
  | equal => .jeq
  | greater => .jgt
  | atLeast => .jge
  | less => .jlt
  | atMost => .jle

/-- What the flags of the last comparison or result say for a condition. -/
def Holds (flags : Flags) : Condition → Prop
  | always => True
  | zero | equal => flags.zero = true
  | nonzero => flags.zero = false
  | greater => flags.zero = false ∧ flags.negative = false
  | atLeast => flags.negative = false
  | less => flags.negative = true
  | atMost => flags.negative = true ∨ flags.zero = true

instance (flags : Flags) (condition : Condition) : Decidable (condition.Holds flags) :=
  match condition with
  | always => inferInstanceAs (Decidable True)
  | zero | equal => inferInstanceAs (Decidable (flags.zero = true))
  | nonzero => inferInstanceAs (Decidable (flags.zero = false))
  | greater => inferInstanceAs (Decidable (flags.zero = false ∧ flags.negative = false))
  | atLeast => inferInstanceAs (Decidable (flags.negative = false))
  | less => inferInstanceAs (Decidable (flags.negative = true))
  | atMost => inferInstanceAs (Decidable (flags.negative = true ∨ flags.zero = true))

end Condition

/-- An instruction of the source whose names are replaced by what they stand for. -/
inductive Statement where
  | printCharacter (source : Register)
  | printText (text : Meaning)
  | move (dest : Register) (source : Meaning)
  | loadAddress (dest : Register) (source : Meaning)
  | compute (operation : Operation) (dest : Register) (source : Meaning)
  | complement (dest : Register)
  | compare
  | jump (condition : Condition) (target : UInt32)
  | call (target : UInt32)
  | returnFromCall
  | push (source : Register)
  | pop (dest : Register)
  | halt
  deriving DecidableEq

/-- The statement of a source instruction whose operands have the kinds that its opcode takes. -/
def Instruction.statement? (interner : Interner) (lines : List Line)
    (instruction : Instruction) : Option Statement :=
  let register := instruction.operands.first.register?
  let target := instruction.operands.first.target? interner lines
  let source := instruction.operands.second.meaning? interner lines
  let compute (operation : Operation) := do return .compute operation (← register) (← source)
  let jump (condition : Condition) := target.map (.jump condition)
  match instruction.opcode with
  | .printChr => register.map .printCharacter
  | .printStr => (instruction.operands.first.meaning? interner lines).map .printText
  | .mov => do return .move (← register) (← source)
  | .loadAddr => do return .loadAddress (← register) (← source)
  | .add => compute .add
  | .sub => compute .sub
  | .mul => compute .mul
  | .div => compute .div
  | .mod => compute .mod
  | .and => compute .and
  | .or => compute .or
  | .not => register.map .complement
  | .cmp => some .compare
  | .jmp => jump .always
  | .jz => jump .zero
  | .jnz => jump .nonzero
  | .jeq => jump .equal
  | .jgt => jump .greater
  | .jge => jump .atLeast
  | .jlt => jump .less
  | .jle => jump .atMost
  | .call => target.map .call
  | .ret => some .returnFromCall
  | .push => register.map .push
  | .pop => register.map .pop
  | .halt => some .halt

/-- Every register takes a value but the heap pointer. -/
def put (machine : Machine) (dest : Register) (value : UInt32) : Except RuntimeError Machine :=
  if dest = .hp then .error (.illegalOperation .heapPointerWrite)
  else .ok (machine.assign dest value)

/-- A word goes below the top of the stack, which has room for it down to the start of its
segment. -/
def putOnStack (machine : Machine) (value : UInt32) : Except RuntimeError Machine :=
  let sp := machine.sp - 4
  if machine.sp.toNat < Segment.stack.base.toNat + 4 then .error .stackOverflow
  else if machine.sp.toNat ≤ Segment.stack.limit.toNat then
    .ok { machine with sp, memory := machine.memory.setBytes sp.toNat (Word.toBytes value) }
  else .error (.memoryOutOfBounds sp)

/-- The word at the top of the stack. -/
def takeFromStack (machine : Machine) : Except RuntimeError (UInt32 × Machine) :=
  if machine.sp.toNat + 4 ≤ Segment.stack.limit.toNat then
    .ok (machine.memory.wordAt machine.sp.toNat, { machine with sp := machine.sp + 4 })
  else .error .stackUnderflow

namespace Statement

/-- The machine after a statement that prints nothing; its program counter is already at the next
instruction. -/
def update (machine : Machine) : Statement → Except RuntimeError Machine
  | printCharacter _ | printText _ => .ok machine
  | move dest source => do put machine dest (← source.value machine)
  | loadAddress dest source =>
      let address := source.location machine
      if address.toNat < imageSize then put machine dest address
      else .error (.memoryOutOfBounds address)
  | compute operation dest source => do
      let right ← source.value machine
      let (result, flags) ← operation.compute machine.flags (machine.valueOf dest) right
      put { machine with flags := resultFlags flags result } dest result
  | complement dest =>
      let result := ~~~machine.valueOf dest
      put { machine with flags := resultFlags machine.flags result } dest result
  | compare => .ok { machine with flags := comparisonFlags machine }
  | jump condition target =>
      .ok (if condition.Holds machine.flags then { machine with pc := target } else machine)
  | call target => do
      let machine ← putOnStack machine machine.pc
      return { machine with pc := target }
  | returnFromCall => do
      let (target, machine) ← takeFromStack machine
      return { machine with pc := target }
  | push source => putOnStack machine (machine.valueOf source)
  | pop dest =>
      if dest = .hp then .error (.illegalOperation .heapPointerWrite)
      else do
        let (value, machine) ← takeFromStack machine
        put machine dest value
  | halt => .ok { machine with status := .halted }

/-- The bytes that a statement prints: the lowest byte of a register, or a text up to its zero. -/
def printed (machine : Machine) : Statement → Except RuntimeError (List UInt8)
  | printCharacter source => .ok [(machine.valueOf source).toUInt8]
  | printText text =>
      let address := text.location machine
      if address.toNat < imageSize then .ok (machine.memory.textFrom address.toNat)
      else .error (.memoryOutOfBounds address)
  | _ => .ok []

/-- What a statement does: the machine and the output after it, or the error that it raises. -/
def effect (machine : Machine) (statement : Statement) :
    Except RuntimeError (Machine × List UInt8) := do
  let text ← statement.printed machine
  let machine ← statement.update machine
  return (machine, text)

end Statement

end RegisterMachine.Source
