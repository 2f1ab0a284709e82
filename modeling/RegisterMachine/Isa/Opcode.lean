/-
This file is the instruction table: the number, mnemonic and operand slots of every opcode.
-/

import RegisterMachine.Isa.OperandKind
import RegisterMachine.Text.Case

namespace RegisterMachine

/-- Operations in the order of their numbers. -/
inductive Opcode where
  | printChr
  | printStr
  | mov
  | loadAddr
  | add
  | sub
  | halt
  | mul
  | div
  | mod
  | and
  | or
  | not
  | cmp
  | jz
  | jnz
  | jeq
  | jgt
  | jge
  | jlt
  | jle
  | jmp
  | call
  | ret
  | push
  | pop
  deriving DecidableEq, Repr, Inhabited

namespace Opcode

def all : List Opcode :=
  [printChr, printStr, mov, loadAddr, add, sub, halt, mul, div, mod, and, or, not, cmp,
    jz, jnz, jeq, jgt, jge, jlt, jle, jmp, call, ret, push, pop]

/-- The number that stands in the first byte of an encoded instruction. -/
def toByte (opcode : Opcode) : UInt8 :=
  UInt8.ofNat opcode.ctorIdx

def ofByte? (byte : UInt8) : Option Opcode :=
  all.toArray[byte.toNat]?

theorem ofByteToByte (opcode : Opcode) : ofByte? opcode.toByte = some opcode := by
  cases opcode <;> rfl

/-- Mnemonics are written in small letters. -/
def mnemonic : Opcode → String
  | printChr => "print_chr"
  | printStr => "print_str"
  | mov => "mov"
  | loadAddr => "load_addr"
  | add => "add"
  | sub => "sub"
  | halt => "halt"
  | mul => "mul"
  | div => "div"
  | mod => "mod"
  | and => "and"
  | or => "or"
  | not => "not"
  | cmp => "cmp"
  | jz => "jz"
  | jnz => "jnz"
  | jeq => "jeq"
  | jgt => "jgt"
  | jge => "jge"
  | jlt => "jlt"
  | jle => "jle"
  | jmp => "jmp"
  | call => "call"
  | ret => "ret"
  | push => "push"
  | pop => "pop"

/-- The mnemonic may be given in any mixture of cases. -/
def ofMnemonic? (name : String) : Option Opcode :=
  let folded := Text.lowercase name
  all.find? fun opcode => opcode.mnemonic == folded

/-- The kind each operand slot takes; the length is the arity. -/
def slots : Opcode → List OperandKind
  | printChr | not | push | pop => [.register]
  | printStr => [.source]
  | mov | loadAddr | add | sub | mul | div | mod | and | or => [.register, .source]
  | halt | cmp | ret => []
  | jz | jnz | jeq | jgt | jge | jlt | jle | jmp | call => [.symbol]

def arity (opcode : Opcode) : Nat :=
  opcode.slots.length

/-- A slot past the arity takes nothing. -/
def slot (opcode : Opcode) (index : Nat) : OperandKind :=
  opcode.slots.getD index .nothing

/-- Jumps and calls take a code address. -/
def isControlFlow : Opcode → Bool
  | jz | jnz | jeq | jgt | jge | jlt | jle | jmp | call => true
  | _ => false

end Opcode

end RegisterMachine
