/-
This file proves that decoding undoes encoding. The parts of a slot are read back one by one, so
an instruction is decoded to itself once each of its operands is.
-/

import RegisterMachine.Instruction.Codec

namespace RegisterMachine

theorem AddressingMode.bits_lt (mode : AddressingMode) : mode.bits < 8 := by
  cases mode <;> decide

/-- Only an unused slot shares its bits with another mode. -/
theorem AddressingMode.ofBits?_bits {mode : AddressingMode} (present : mode ≠ .absent) :
    ofBits? mode.bits = some mode := by
  cases mode <;> first | rfl | contradiction

namespace Slot

variable {global sourceImmediate : Bool} {destBits srcBits : Nat}

theorem packFlags_toNat (destBound : destBits < 8) (srcBound : srcBits < 8) :
    (packFlags global destBits srcBits sourceImmediate).toNat =
      global.toNat <<< 7 + destBits <<< 4 + srcBits <<< 1 + sourceImmediate.toNat := by
  have globalBound := global.toNat_le
  have flagBound := sourceImmediate.toNat_le
  rw [packFlags, UInt8.toNat_ofNat', Nat.mod_eq_of_lt (by omega)]

/-- Flags and modes do not overlap in their byte. -/
theorem packFlags_parts {slot : Slot}
    (packed : slot.flags = packFlags global destBits srcBits sourceImmediate)
    (destBound : destBits < 8) (srcBound : srcBits < 8) :
    slot.globalFlag = global ∧ slot.destBits = destBits ∧ slot.srcBits = srcBits ∧
      slot.sourceImmediateFlag = sourceImmediate := by
  have globalBound := global.toNat_le
  have flagBound := sourceImmediate.toNat_le
  simp only [globalFlag, Slot.destBits, Slot.srcBits, sourceImmediateFlag, packed,
    packFlags_toNat destBound srcBound]
  refine ⟨?_, by omega, by omega, ?_⟩
  · have high : (global.toNat <<< 7 + destBits <<< 4 + srcBits <<< 1 +
        sourceImmediate.toNat) >>> 7 = global.toNat := by omega
    rw [high]
    cases global <;> rfl
  · have low : (global.toNat <<< 7 + destBits <<< 4 + srcBits <<< 1 +
        sourceImmediate.toNat) % 2 = sourceImmediate.toNat := by omega
    rw [low]
    cases sourceImmediate <;> rfl

@[simp] theorem toBytes_length (slot : Slot) : slot.toBytes.length = 8 := rfl

end Slot

/-- The fields that an operand was taken apart into make it up again. -/
theorem Operand.ofFields_fields {operand : Operand} {immediate : UInt32}
    (shared : ∀ value, operand.immediate? = some value → value = immediate) :
    ofFields operand.mode operand.idByte immediate = operand := by
  cases operand with
  | registerDirect id | registerIndirect id | absent => rfl
  | immediateInt value | immediateAddress value | pcRelative value | baseOffset base value =>
      rw [← shared value rfl]
      rfl

namespace Instruction

/-- Every operand that the opcode takes is there. -/
structure Complete (instruction : Instruction) : Prop where
  dest : 0 < instruction.opcode.arity → instruction.dest ≠ .absent
  src : 1 < instruction.opcode.arity → instruction.src ≠ .absent

/-- No operand stands past those that the opcode takes. -/
structure WithinArity (instruction : Instruction) : Prop where
  dest : instruction.opcode.arity ≤ 0 → instruction.dest = .absent
  src : instruction.opcode.arity ≤ 1 → instruction.src = .absent

/-- The check of the encoder refuses exactly the operands past the arity. -/
theorem all_absent_iff {instruction : Instruction} :
    (instruction.operands.drop instruction.opcode.arity).all (· = .absent) ↔
      instruction.WithinArity := by
  have few : ∀ arity : Nat, (instruction.operands.drop arity).all (· = .absent) ↔
      (arity ≤ 0 → instruction.dest = .absent) ∧ (arity ≤ 1 → instruction.src = .absent) := by
    intro arity
    match arity with
    | 0 => simp [operands]
    | 1 => simp [operands]
    | past + 2 => simp [operands]
  exact (few _).trans ⟨fun both => ⟨both.1, both.2⟩, fun within => ⟨within.dest, within.src⟩⟩

theorem decodeOperand_fields {arity index : Nat} {operand : Operand} {immediate : UInt32}
    (present : index < arity → operand ≠ .absent) (unused : arity ≤ index → operand = .absent)
    (shared : ∀ value, operand.immediate? = some value → value = immediate) :
    decodeOperand arity index operand.mode.bits operand.idByte immediate = .ok operand := by
  unfold decodeOperand
  by_cases used : index < arity
  · have mode : operand.mode ≠ .absent := by
      intro absent
      apply present used
      cases operand <;> first | rfl | cases absent
    rw [if_pos used, AddressingMode.ofBits?_bits mode]
    dsimp only
    rw [Operand.ofFields_fields shared]
  · rw [if_neg used, unused (Nat.le_of_not_lt used)]

/-- The shared word is the one that each operand needs. -/
theorem sharedImmediate_ok {instruction : Instruction} {immediate : UInt32}
    (found : instruction.sharedImmediate = .ok immediate) :
    (∀ value, instruction.dest.immediate? = some value → value = immediate) ∧
      (∀ value, instruction.src.immediate? = some value → value = immediate) := by
  unfold sharedImmediate at found
  cases dest : instruction.dest.immediate? <;> cases src : instruction.src.immediate? <;>
    rw [dest, src] at found <;> dsimp only at found
  · simp
  · cases found
    simp
  · cases found
    simp
  · split at found
    · rename_i same
      cases found
      simp [same]
    · cases found

theorem toSlot_ok {instruction : Instruction} {slot : Slot}
    (found : instruction.toSlot = .ok slot) :
    (instruction.operands.drop instruction.opcode.arity).all (· = .absent) ∧
      ∃ immediate, instruction.sharedImmediate = .ok immediate ∧
        slot = {
          opcodeByte := instruction.opcode.toByte
          destId := instruction.dest.idByte
          srcId := instruction.src.idByte
          immediate
          flags := Slot.packFlags instruction.global instruction.dest.mode.bits
            instruction.src.mode.bits instruction.sourceImmediate } := by
  unfold toSlot at found
  split at found
  · rename_i unused
    cases shared : instruction.sharedImmediate with
    | error reason =>
        rw [shared] at found
        cases found
    | ok immediate =>
        rw [shared] at found
        cases found
        exact ⟨unused, immediate, rfl, rfl⟩
  · cases found

theorem ofSlot_toSlot {instruction : Instruction} {slot : Slot} (complete : instruction.Complete)
    (found : instruction.toSlot = .ok slot) : ofSlot slot = .ok instruction := by
  obtain ⟨unused, immediate, shared, fields⟩ := toSlot_ok found
  obtain ⟨destShared, srcShared⟩ := sharedImmediate_ok shared
  have packed : slot.flags = Slot.packFlags instruction.global instruction.dest.mode.bits
      instruction.src.mode.bits instruction.sourceImmediate := by
    rw [fields]
  obtain ⟨global, destBits, srcBits, sourceImmediate⟩ :=
    Slot.packFlags_parts packed instruction.dest.mode.bits_lt instruction.src.mode.bits_lt
  have within := all_absent_iff.mp unused
  have dest := decodeOperand_fields complete.dest within.dest destShared
  have src := decodeOperand_fields complete.src within.src srcShared
  rw [ofSlot, global, destBits, srcBits, sourceImmediate, fields, Opcode.ofByteToByte]
  dsimp only
  rw [dest, src]
  rfl

/-- Decoding undoes the encoding of an instruction that has all its operands. -/
theorem decode?_encode {instruction : Instruction} {bytes : List UInt8}
    (complete : instruction.Complete) (encoded : instruction.encode = .ok bytes) :
    decode? bytes = some (.ok instruction) := by
  unfold encode at encoded
  cases found : instruction.toSlot with
  | error reason =>
      rw [found] at encoded
      cases encoded
  | ok slot =>
      rw [found] at encoded
      cases encoded
      rw [decode?, Slot.ofBytesToBytes, Option.map_some, ofSlot_toSlot complete found]

theorem encode_length {instruction : Instruction} {bytes : List UInt8}
    (encoded : instruction.encode = .ok bytes) : bytes.length = byteSize := by
  unfold encode at encoded
  cases found : instruction.toSlot with
  | error reason =>
      rw [found] at encoded
      cases encoded
  | ok slot =>
      rw [found] at encoded
      cases encoded
      exact slot.toBytes_length

/-- Eight bytes are a slot, so they are decoded or refused for what they hold. -/
theorem decode?_slot (bytes : List UInt8) (size : bytes.length = byteSize) :
    ∃ slot, Slot.ofBytes? bytes = some slot ∧ decode? bytes = some (ofSlot slot) := by
  unfold byteSize at size
  match bytes, size with
  | [opcodeByte, destId, srcId, byte0, byte1, byte2, byte3, flags], _ => exact ⟨_, rfl, rfl⟩

/-- Bytes that do not fill a slot have no decoding. -/
theorem decode?_eq_none_iff {bytes : List UInt8} :
    decode? bytes = none ↔ bytes.length ≠ byteSize := by
  constructor
  · intro missing size
    obtain ⟨slot, _, decoded⟩ := decode?_slot bytes size
    rw [decoded] at missing
    cases missing
  · intro size
    unfold decode? Slot.ofBytes?
    split
    · exact absurd rfl size
    · rfl

end Instruction

end RegisterMachine
