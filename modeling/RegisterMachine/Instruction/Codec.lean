/-
This file packs instructions into slots of eight bytes and unpacks them.
A slot holds the opcode, one id byte for each operand, a word that the operands share and a
byte of flags and modes.
-/

import RegisterMachine.Instruction.Basic
import RegisterMachine.Text.Numeral
import RegisterMachine.Word

namespace RegisterMachine

/-- The fields of eight bytes of code before they are given a meaning. -/
structure Slot where
  opcodeByte : UInt8
  destId : UInt8
  srcId : UInt8
  immediate : UInt32
  flags : UInt8
  deriving DecidableEq, Repr

namespace Slot

def toBytes (slot : Slot) : List UInt8 :=
  slot.opcodeByte :: slot.destId :: slot.srcId ::
    (Word.toBytes slot.immediate ++ [slot.flags])

/-- Only eight bytes make a slot. -/
def ofBytes? : List UInt8 → Option Slot
  | [opcodeByte, destId, srcId, byte0, byte1, byte2, byte3, flags] =>
      some ⟨opcodeByte, destId, srcId, Word.ofBytes byte0 byte1 byte2 byte3, flags⟩
  | _ => none

theorem ofBytesToBytes (slot : Slot) : ofBytes? slot.toBytes = some slot := by
  simp only [toBytes, Word.toBytes, List.cons_append, List.nil_append, ofBytes?,
    Word.ofBytesToBytes]

/-- Bit 7 marks the use of a global symbol. -/
def globalFlag (slot : Slot) : Bool :=
  slot.flags.toNat >>> 7 = 1

/-- Bits 4 to 6 hold the mode of the destination. -/
def destBits (slot : Slot) : Nat :=
  slot.flags.toNat >>> 4 % 8

/-- Bits 1 to 3 hold the mode of the source. -/
def srcBits (slot : Slot) : Nat :=
  slot.flags.toNat >>> 1 % 8

/-- Bit 0 is carried through and never consulted. -/
def sourceImmediateFlag (slot : Slot) : Bool :=
  slot.flags.toNat % 2 = 1

/-- The byte of flags and modes that has the given parts. -/
def packFlags (global : Bool) (destBits srcBits : Nat) (sourceImmediate : Bool) : UInt8 :=
  UInt8.ofNat
    (global.toNat <<< 7 + destBits <<< 4 + srcBits <<< 1 + sourceImmediate.toNat)

end Slot

/-- Why eight bytes are no instruction. -/
inductive DecodeError where
  | opcodeNotFound (byte : UInt8)
  | invalidAddressingMode (operandIndex : Nat) (bits : Nat)
  deriving DecidableEq, Repr

def DecodeError.message : DecodeError → String
  | opcodeNotFound byte => "unknown opcode " ++ Text.hexadecimal 2 byte.toNat
  | invalidAddressingMode operandIndex bits =>
      "unassigned addressing mode " ++ Text.binary 3 bits ++ s!" in operand {operandIndex}"

/-- Why an instruction has no encoding of eight bytes. -/
inductive EncodeError where
  | immediateConflict (opcode : Opcode)
  | operandCount (opcode : Opcode)
  deriving DecidableEq, Repr

def EncodeError.message : EncodeError → String
  | immediateConflict opcode =>
      "both operands of `" ++ opcode.mnemonic ++ "` need the 32-bit field"
  | operandCount opcode =>
      "`" ++ opcode.mnemonic ++ "` takes " ++ toString opcode.arity ++ " operand(s)"

namespace Instruction

/-- A slot index below the arity is read by its mode, and one past it is absent. -/
def decodeOperand (arity operandIndex bits : Nat) (id : UInt8) (immediate : UInt32) :
    Except DecodeError Operand :=
  if operandIndex < arity then
    match AddressingMode.ofBits? bits with
    | some mode => .ok (.ofFields mode id immediate)
    | none => .error (.invalidAddressingMode operandIndex bits)
  else .ok .absent

/-- Decoding is a function of the slot alone. -/
def ofSlot (slot : Slot) : Except DecodeError Instruction :=
  match Opcode.ofByte? slot.opcodeByte with
  | none => .error (.opcodeNotFound slot.opcodeByte)
  | some opcode => do
      let dest ← decodeOperand opcode.arity 0 slot.destBits slot.destId slot.immediate
      let src ← decodeOperand opcode.arity 1 slot.srcBits slot.srcId slot.immediate
      return {
        opcode, dest, src
        global := slot.globalFlag
        sourceImmediate := slot.sourceImmediateFlag }

/-- Bytes that are not exactly one slot have no decoding, not even a failed one. -/
def decode? (bytes : List UInt8) : Option (Except DecodeError Instruction) :=
  (Slot.ofBytes? bytes).map ofSlot

/-- Two operands that both read the shared word must agree on it. -/
def sharedImmediate (instruction : Instruction) : Except EncodeError UInt32 :=
  match instruction.dest.immediate?, instruction.src.immediate? with
  | some destValue, some srcValue =>
      if destValue = srcValue then .ok destValue
      else .error (.immediateConflict instruction.opcode)
  | some value, none => .ok value
  | none, some value => .ok value
  | none, none => .ok 0

/-- Operands past the arity would be lost, so they are refused first. -/
def toSlot (instruction : Instruction) : Except EncodeError Slot :=
  if (instruction.operands.drop instruction.opcode.arity).all (· = .absent) then do
    let immediate ← instruction.sharedImmediate
    return {
      opcodeByte := instruction.opcode.toByte
      destId := instruction.dest.idByte
      srcId := instruction.src.idByte
      immediate
      flags := Slot.packFlags instruction.global instruction.dest.mode.bits
        instruction.src.mode.bits instruction.sourceImmediate }
  else .error (.operandCount instruction.opcode)

def encode (instruction : Instruction) : Except EncodeError (List UInt8) :=
  instruction.toSlot.map Slot.toBytes

end Instruction

end RegisterMachine
