/-
This file defines instructions and the ways in which an operand is located.
-/

import RegisterMachine.Isa.Opcode
import RegisterMachine.Isa.Register

namespace RegisterMachine

/-- How the value of an operand is found; `absent` is the mode of an unused slot. -/
inductive AddressingMode where
  | registerDirect
  | immediateInt
  | immediateAddress
  | registerIndirect
  | baseOffset
  | pcRelative
  | absent
  deriving DecidableEq, Repr, Inhabited

namespace AddressingMode

def name : AddressingMode → String
  | registerDirect => "RegisterDirect"
  | immediateInt => "ImmediateInt"
  | immediateAddress => "ImmediateAddress"
  | registerIndirect => "RegisterIndirect"
  | baseOffset => "BaseOffset"
  | pcRelative => "PcRelative"
  | absent => "None"

/-- The three-bit field of a mode; an unused slot has no bits set. -/
def bits : AddressingMode → Nat
  | registerDirect | absent => 0b000
  | immediateInt => 0b001
  | immediateAddress => 0b010
  | registerIndirect => 0b100
  | baseOffset => 0b110
  | pcRelative => 0b111

/-- The fields 011 and 101 are assigned to no mode. -/
def ofBits? : Nat → Option AddressingMode
  | 0b000 => some registerDirect
  | 0b001 => some immediateInt
  | 0b010 => some immediateAddress
  | 0b100 => some registerIndirect
  | 0b110 => some baseOffset
  | 0b111 => some pcRelative
  | _ => none

/-- Whether the mode reads the word that both slots share. -/
def usesImmediate : AddressingMode → Bool
  | immediateInt | immediateAddress | baseOffset | pcRelative => true
  | registerDirect | registerIndirect | absent => false

/-- Whether the mode reads the id byte of its slot. -/
def usesRegister : AddressingMode → Bool
  | registerDirect | registerIndirect | baseOffset => true
  | immediateInt | immediateAddress | pcRelative | absent => false

end AddressingMode

/-- Operands keep register ids raw, since an id may name no register. -/
inductive Operand where
  | registerDirect (id : UInt8)
  | immediateInt (value : UInt32)
  | immediateAddress (address : UInt32)
  | registerIndirect (id : UInt8)
  | baseOffset (base : UInt8) (offset : UInt32)
  /-- Relative to the address of the instruction that follows, in two's complement. -/
  | pcRelative (offset : UInt32)
  | absent
  deriving DecidableEq, Repr, Inhabited

namespace Operand

def ofRegister (register : Register) : Operand :=
  .registerDirect register.id

def mode : Operand → AddressingMode
  | registerDirect _ => .registerDirect
  | immediateInt _ => .immediateInt
  | immediateAddress _ => .immediateAddress
  | registerIndirect _ => .registerIndirect
  | baseOffset _ _ => .baseOffset
  | pcRelative _ => .pcRelative
  | absent => .absent

/-- The id byte is zero for operands that name no register. -/
def idByte : Operand → UInt8
  | registerDirect id | registerIndirect id | baseOffset id _ => id
  | immediateInt _ | immediateAddress _ | pcRelative _ | absent => 0

def immediate? : Operand → Option UInt32
  | immediateInt value | immediateAddress value | baseOffset _ value | pcRelative value =>
      some value
  | registerDirect _ | registerIndirect _ | absent => none

/-- The operand of a mode takes only those fields of its slot that the mode reads. -/
def ofFields (mode : AddressingMode) (id : UInt8) (immediate : UInt32) : Operand :=
  match mode with
  | .registerDirect => registerDirect id
  | .immediateInt => immediateInt immediate
  | .immediateAddress => immediateAddress immediate
  | .registerIndirect => registerIndirect id
  | .baseOffset => baseOffset id immediate
  | .pcRelative => pcRelative immediate
  | .absent => absent

end Operand

/-- One instruction: the destination is the first operand and the source the second. -/
structure Instruction where
  opcode : Opcode
  dest : Operand
  src : Operand
  /-- Set when an operand names a global symbol. -/
  global : Bool
  /-- Stored with the instruction but without effect on it. -/
  sourceImmediate : Bool
  deriving DecidableEq, Repr, Inhabited

namespace Instruction

/-- Every encoded instruction takes eight bytes. -/
def byteSize : Nat := 8

def operands (instruction : Instruction) : List Operand :=
  [instruction.dest, instruction.src]

end Instruction

end RegisterMachine
