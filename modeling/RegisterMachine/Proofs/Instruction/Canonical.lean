/-
This file says which eight bytes are an instruction, and what is left of them when the instruction
is encoded again: the bits that its opcode reads stay, and all others are cleared.
-/

import Mathlib.Tactic.SplitIfs
import RegisterMachine.Defect
import RegisterMachine.Proofs.Instruction.Codec
import RegisterMachine.Proofs.Isa.Opcode

namespace RegisterMachine

namespace AddressingMode

/-- Two patterns of mode bits are assigned to no mode. -/
theorem ofBits?_eq_none {bits : Nat} (bound : bits < 8) :
    ofBits? bits = none ↔ bits = 0b011 ∨ bits = 0b101 := by
  revert bits
  decide

/-- The bits that a mode was read from are its own. -/
theorem bits_ofBits? {bits : Nat} {mode : AddressingMode} (found : ofBits? bits = some mode) :
    mode.bits = bits ∧ mode ≠ .absent := by
  unfold ofBits? at found
  split at found <;> cases found <;> exact ⟨rfl, by decide⟩

end AddressingMode

namespace Operand

variable (mode : AddressingMode) (id : UInt8) (immediate : UInt32)

@[simp] theorem mode_ofFields : (ofFields mode id immediate).mode = mode := by
  cases mode <;> rfl

@[simp] theorem idByte_ofFields :
    (ofFields mode id immediate).idByte = if mode.usesRegister then id else 0 := by
  cases mode <;> rfl

@[simp] theorem immediate?_ofFields :
    (ofFields mode id immediate).immediate? =
      if mode.usesImmediate then some immediate else none := by
  cases mode <;> rfl

end Operand

/-- All bits of a byte or none of them. -/
def wholeByte (used : Bool) : UInt8 :=
  if used then 0xFF else 0

theorem and_wholeByte (byte : UInt8) (used : Bool) :
    byte &&& wholeByte used = if used then byte else 0 := by
  cases used with
  | true => exact UInt8.and_neg_one
  | false => exact UInt8.and_zero

/-- The bits of the last byte that are read when the first operands are used. -/
def Slot.flagMask (arity : Nat) : UInt8 :=
  0x81 ||| (if 0 < arity then 0x70 else 0) ||| (if 1 < arity then 0x0E else 0)

/-- The parts that are read make up the last byte without its other bits. -/
theorem Slot.packFlags_and_flagMask (slot : Slot) (arity : Nat) :
    packFlags slot.globalFlag (if 0 < arity then slot.destBits else 0)
        (if 1 < arity then slot.srcBits else 0) slot.sourceImmediateFlag =
      slot.flags &&& flagMask arity := by
  have each : ∀ flags : Fin 256, ∀ dest src : Bool,
      packFlags (flags.val >>> 7 = 1) (if dest then flags.val >>> 4 % 8 else 0)
          (if src then flags.val >>> 1 % 8 else 0) (flags.val % 2 = 1) =
        UInt8.ofNat flags.val &&&
          (0x81 ||| (if dest then 0x70 else 0) ||| (if src then 0x0E else 0)) := by
    decide +kernel
  have one := each ⟨slot.flags.toNat, slot.flags.toNat_lt⟩ (0 < arity) (1 < arity)
  simpa [globalFlag, destBits, srcBits, sourceImmediateFlag, flagMask] using one

namespace Instruction

/-- The mode that is read for the operand of an index; an operand that is not used has none. -/
def modeOf (arity index bits : Nat) : AddressingMode :=
  if index < arity then (AddressingMode.ofBits? bits).getD .absent else .absent

theorem bits_modeOf {arity index bits : Nat}
    (assigned : index < arity → AddressingMode.ofBits? bits ≠ none) :
    (modeOf arity index bits).bits = if index < arity then bits else 0 := by
  unfold modeOf
  by_cases used : index < arity
  · obtain ⟨mode, found⟩ := Option.ne_none_iff_exists'.mp (assigned used)
    rw [if_pos used, if_pos used, found, Option.getD_some, (AddressingMode.bits_ofBits? found).1]
  · rw [if_neg used, if_neg used]
    rfl

/-- An operand is made of those fields that its mode reads. -/
theorem decodeOperand_ofFields {arity index bits : Nat} (id : UInt8) (immediate : UInt32)
    (assigned : index < arity → AddressingMode.ofBits? bits ≠ none) :
    decodeOperand arity index bits id immediate =
      .ok (.ofFields (modeOf arity index bits) id immediate) := by
  unfold decodeOperand modeOf
  by_cases used : index < arity
  · obtain ⟨mode, found⟩ := Option.ne_none_iff_exists'.mp (assigned used)
    rw [if_pos used, if_pos used, found, Option.getD_some]
  · rw [if_neg used, if_neg used]
    rfl

theorem decodeOperand_unassigned {arity index bits : Nat} (id : UInt8) (immediate : UInt32)
    (used : index < arity) (unassigned : AddressingMode.ofBits? bits = none) :
    decodeOperand arity index bits id immediate = .error (.invalidAddressingMode index bits) := by
  rw [decodeOperand, if_pos used, unassigned]

/-- An operand is absent exactly if its opcode does not take it. -/
theorem ofFields_unused {arity index bits : Nat} (unused : arity ≤ index) (id : UInt8)
    (immediate : UInt32) : Operand.ofFields (modeOf arity index bits) id immediate = .absent := by
  rw [modeOf, if_neg (Nat.not_lt_of_le unused)]
  rfl

theorem ofFields_used {arity index bits : Nat} (used : index < arity)
    (assigned : AddressingMode.ofBits? bits ≠ none) (id : UInt8) (immediate : UInt32) :
    Operand.ofFields (modeOf arity index bits) id immediate ≠ .absent := by
  obtain ⟨mode, found⟩ := Option.ne_none_iff_exists'.mp assigned
  intro absent
  have mode_absent := congrArg Operand.mode absent
  rw [Operand.mode_ofFields, modeOf, if_pos used, found, Option.getD_some] at mode_absent
  exact (AddressingMode.bits_ofBits? found).2 mode_absent

theorem decodeOperand_present {arity index bits : Nat} {id : UInt8} {immediate : UInt32}
    {operand : Operand} (used : index < arity)
    (decoded : decodeOperand arity index bits id immediate = .ok operand) : operand ≠ .absent := by
  have assigned : AddressingMode.ofBits? bits ≠ none := by
    intro unassigned
    rw [decodeOperand_unassigned id immediate used unassigned] at decoded
    cases decoded
  rw [decodeOperand_ofFields id immediate fun _ => assigned] at decoded
  rw [← Except.ok.inj decoded]
  exact ofFields_used used assigned id immediate

/-- Two operands that were read from one word agree on it. -/
theorem sharedImmediate_ofFields {instruction : Instruction} {dest src : AddressingMode}
    {destId srcId : UInt8} {immediate : UInt32}
    (first : instruction.dest = .ofFields dest destId immediate)
    (second : instruction.src = .ofFields src srcId immediate) :
    instruction.sharedImmediate =
      .ok (if dest.usesImmediate || src.usesImmediate then immediate else 0) := by
  rw [sharedImmediate, first, second, Operand.immediate?_ofFields, Operand.immediate?_ofFields]
  cases dest.usesImmediate <;> cases src.usesImmediate <;> simp

theorem decodeOperand_unused {arity index bits : Nat} {id : UInt8} {immediate : UInt32}
    {operand : Operand} (unused : arity ≤ index)
    (decoded : decodeOperand arity index bits id immediate = .ok operand) : operand = .absent := by
  rw [decodeOperand, if_neg (Nat.not_lt_of_le unused)] at decoded
  exact (Except.ok.inj decoded).symm

/-- The operands of a decoded instruction were decoded one by one. -/
theorem ofSlot_ok {slot : Slot} {instruction : Instruction}
    (decoded : ofSlot slot = .ok instruction) :
    decodeOperand instruction.opcode.arity 0 slot.destBits slot.destId slot.immediate =
        .ok instruction.dest ∧
      decodeOperand instruction.opcode.arity 1 slot.srcBits slot.srcId slot.immediate =
        .ok instruction.src := by
  unfold ofSlot at decoded
  cases named : Opcode.ofByte? slot.opcodeByte with
  | none =>
      rw [named] at decoded
      cases decoded
  | some opcode =>
      rw [named] at decoded
      obtain ⟨dest, destDecoded, decoded⟩ := bindOk decoded
      obtain ⟨src, srcDecoded, decoded⟩ := bindOk decoded
      cases decoded
      exact ⟨destDecoded, srcDecoded⟩

theorem ofSlot_complete {slot : Slot} {instruction : Instruction}
    (decoded : ofSlot slot = .ok instruction) : instruction.Complete := by
  obtain ⟨dest, src⟩ := ofSlot_ok decoded
  exact ⟨fun used => decodeOperand_present used dest, fun used => decodeOperand_present used src⟩

/-- Decoding leaves out no operand that the opcode takes. -/
theorem decode?_complete {bytes : List UInt8} {instruction : Instruction}
    (decoded : decode? bytes = some (.ok instruction)) : instruction.Complete := by
  obtain ⟨slot, _, found⟩ := Option.map_eq_some_iff.mp decoded
  exact ofSlot_complete found

/-- Decoding makes up no operand that the opcode does not take. -/
theorem decode?_withinArity {bytes : List UInt8} {instruction : Instruction}
    (decoded : decode? bytes = some (.ok instruction)) : instruction.WithinArity := by
  obtain ⟨slot, _, found⟩ := Option.map_eq_some_iff.mp decoded
  obtain ⟨dest, src⟩ := ofSlot_ok found
  exact ⟨fun unused => decodeOperand_unused unused dest,
    fun unused => decodeOperand_unused unused src⟩

end Instruction

namespace Slot

variable (slot : Slot)

/-- The modes of the two operands of an opcode. -/
def destMode (arity : Nat) : AddressingMode :=
  Instruction.modeOf arity 0 slot.destBits

def srcMode (arity : Nat) : AddressingMode :=
  Instruction.modeOf arity 1 slot.srcBits

/-- The slot with those fields alone that its instruction depends on. -/
def canonical (arity : Nat) : Slot where
  opcodeByte := slot.opcodeByte
  destId := if (slot.destMode arity).usesRegister then slot.destId else 0
  srcId := if (slot.srcMode arity).usesRegister then slot.srcId else 0
  immediate :=
    if (slot.destMode arity).usesImmediate || (slot.srcMode arity).usesImmediate then
      slot.immediate
    else 0
  flags := slot.flags &&& flagMask arity

/-- The modes of all operands that an opcode takes are assigned. -/
structure Assigned (arity : Nat) : Prop where
  dest : 0 < arity → AddressingMode.ofBits? slot.destBits ≠ none
  src : 1 < arity → AddressingMode.ofBits? slot.srcBits ≠ none

variable {slot}

/-- A slot whose modes are assigned is an instruction, and the encoding of that is canonical. -/
theorem ofSlot_assigned {opcode : Opcode} (named : Opcode.ofByte? slot.opcodeByte = some opcode)
    (assigned : slot.Assigned opcode.arity) :
    ∃ instruction, Instruction.ofSlot slot = .ok instruction ∧ instruction.Complete ∧
      instruction.toSlot = .ok (slot.canonical opcode.arity) := by
  have dest := Instruction.decodeOperand_ofFields slot.destId slot.immediate assigned.dest
  have src := Instruction.decodeOperand_ofFields slot.srcId slot.immediate assigned.src
  let instruction : Instruction := {
    opcode
    dest := .ofFields (slot.destMode opcode.arity) slot.destId slot.immediate
    src := .ofFields (slot.srcMode opcode.arity) slot.srcId slot.immediate
    global := slot.globalFlag
    sourceImmediate := slot.sourceImmediateFlag }
  have decoded : Instruction.ofSlot slot = .ok instruction := by
    rw [Instruction.ofSlot, named]
    dsimp only
    rw [dest, src]
    rfl
  have within : instruction.WithinArity :=
    ⟨fun unused => Instruction.ofFields_unused unused _ _,
      fun unused => Instruction.ofFields_unused unused _ _⟩
  have complete : instruction.Complete :=
    ⟨fun used => Instruction.ofFields_used used (assigned.dest used) _ _,
      fun used => Instruction.ofFields_used used (assigned.src used) _ _⟩
  have flags : packFlags slot.globalFlag (slot.destMode opcode.arity).bits
      (slot.srcMode opcode.arity).bits slot.sourceImmediateFlag =
        slot.flags &&& flagMask opcode.arity := by
    rw [← packFlags_and_flagMask, destMode, srcMode, Instruction.bits_modeOf assigned.dest,
      Instruction.bits_modeOf assigned.src]
  refine ⟨instruction, decoded, complete, ?_⟩
  rw [Instruction.toSlot, if_pos (Instruction.all_absent_iff.mpr within),
    Instruction.sharedImmediate_ofFields (by rfl) (by rfl), okBind, pureOk, canonical,
    Opcode.ofByte?_eq_some named]
  simp only [instruction, Operand.idByte_ofFields, Operand.mode_ofFields, flags]

/-- The field of eight bytes that a slot is read from. -/
def ofVector (bytes : Vector UInt8 Instruction.byteSize) : Slot :=
  ⟨bytes[0], bytes[1], bytes[2], Word.ofBytes bytes[3] bytes[4] bytes[5] bytes[6], bytes[7]⟩

theorem toList_eq (bytes : Vector UInt8 Instruction.byteSize) :
    bytes.toList = [bytes[0], bytes[1], bytes[2], bytes[3], bytes[4], bytes[5], bytes[6],
      bytes[7]] := by
  obtain ⟨⟨list⟩, size⟩ := bytes
  match list, size with
  | [_, _, _, _, _, _, _, _], _ => rfl

theorem decode?_toList (bytes : Vector UInt8 Instruction.byteSize) :
    Instruction.decode? bytes.toList = some (Instruction.ofSlot (ofVector bytes)) := by
  rw [toList_eq]
  rfl

end Slot

namespace Encoding

variable (bytes : Vector UInt8 Instruction.byteSize)

/-- The number of operands that the first byte stands for. -/
def arity : Nat :=
  ((Opcode.ofByte? bytes[0]).map Opcode.arity).getD 0

/-- The mode bits of the destination, which has index zero, and of the source. -/
def modeBits (index : Nat) : Nat :=
  bytes[7].toNat / (if index = 0 then 16 else 2) % 8

/-- Why eight bytes are no instruction: their opcode, or the first operand that the opcode takes
whose mode bits are assigned to no mode. -/
def refusal? : Option DecodeError :=
  if 0x19 < bytes[0].toNat then some (.opcodeNotFound bytes[0])
  else
    ((List.range (arity bytes)).find? fun index =>
        modeBits bytes index = 0b011 ∨ modeBits bytes index = 0b101).map
      fun index => .invalidAddressingMode index (modeBits bytes index)

/-- The mode of an operand that the opcode takes. -/
def mode (index : Nat) : AddressingMode :=
  Instruction.modeOf (arity bytes) index (modeBits bytes index)

/-- The bits that the opcode reads: its own byte, the two flags, the mode bits of its operands, the
id bytes of operands with a register, and the word if the mode of an operand reads it. -/
def mask : Vector UInt8 Instruction.byteSize :=
  let id index := wholeByte (mode bytes index).usesRegister
  let word := wholeByte ((mode bytes 0).usesImmediate || (mode bytes 1).usesImmediate)
  #v[0xFF, id 0, id 1, word, word, word, word, Slot.flagMask (arity bytes)]

/-- The bytes without the bits that nothing reads. -/
def canonical : Vector UInt8 Instruction.byteSize :=
  bytes.zipWith (· &&& ·) (mask bytes)

theorem destBits_eq : (Slot.ofVector bytes).destBits = modeBits bytes 0 :=
  congrArg (· % 8) (Nat.shiftRight_eq_div_pow bytes[7].toNat 4)

theorem srcBits_eq : (Slot.ofVector bytes).srcBits = modeBits bytes 1 :=
  congrArg (· % 8) (Nat.shiftRight_eq_div_pow bytes[7].toNat 1)

theorem modeBits_lt (index : Nat) : modeBits bytes index < 8 :=
  Nat.mod_lt _ (by decide)

theorem toBytes_canonical :
    ((Slot.ofVector bytes).canonical (arity bytes)).toBytes = (canonical bytes).toList := by
  have dest : (Slot.ofVector bytes).destMode (arity bytes) = mode bytes 0 := by
    rw [Slot.destMode, destBits_eq, mode]
  have src : (Slot.ofVector bytes).srcMode (arity bytes) = mode bytes 1 := by
    rw [Slot.srcMode, srcBits_eq, mode]
  have word : Word.toBytes (if (mode bytes 0).usesImmediate || (mode bytes 1).usesImmediate then
      (Slot.ofVector bytes).immediate else 0) =
        [bytes[3], bytes[4], bytes[5], bytes[6]].map (· &&& wholeByte
          ((mode bytes 0).usesImmediate || (mode bytes 1).usesImmediate)) := by
    have nothing : Word.toBytes 0 = [0, 0, 0, 0] := rfl
    simp only [and_wholeByte]
    cases (mode bytes 0).usesImmediate || (mode bytes 1).usesImmediate with
    | true => exact Word.toBytesOfBytes _ _ _ _
    | false => simpa using nothing
  have opcode : bytes[0] &&& (0xFF : UInt8) = bytes[0] := UInt8.and_neg_one
  have kept : (mask bytes).toList =
      let word := wholeByte ((mode bytes 0).usesImmediate || (mode bytes 1).usesImmediate)
      [0xFF, wholeByte (mode bytes 0).usesRegister, wholeByte (mode bytes 1).usesRegister,
        word, word, word, word, Slot.flagMask (arity bytes)] := rfl
  rw [canonical, Vector.toList_zipWith, kept, Slot.toList_eq, Slot.toBytes, Slot.canonical, dest,
    src]
  dsimp only
  rw [word]
  simp [opcode, and_wholeByte, Slot.ofVector]

/-- The first of at most two indices that has a property. -/
theorem find?_range {arity : Nat} (few : arity ≤ 2) (holds : Nat → Bool) :
    (List.range arity).find? holds =
      if 0 < arity ∧ holds 0 then some 0
      else if 1 < arity ∧ holds 1 then some 1
      else none := by
  match arity, few with
  | 0, _ => rfl
  | 1, _ =>
      rw [List.range_one, List.find?_singleton]
      simp
  | 2, _ =>
      rw [show List.range 2 = [0, 1] from rfl, List.find?_cons, List.find?_singleton]
      cases holds 0 <;> simp

/-- Either every mode that the opcode takes is assigned, or the first that is not is refused. -/
theorem refusal?_named {opcode : Opcode} (named : Opcode.ofByte? bytes[0] = some opcode) :
    match refusal? bytes with
    | some error => Instruction.ofSlot (Slot.ofVector bytes) = .error error
    | none => (Slot.ofVector bytes).Assigned opcode.arity := by
  have numbered : ¬0x19 < bytes[0].toNat := by
    rw [← Opcode.ofByte?_eq_none, named]
    exact Option.some_ne_none opcode
  have taken : arity bytes = opcode.arity := by
    rw [arity, named, Option.map_some, Option.getD_some]
  have unassigned (index : Nat) :
      decide (modeBits bytes index = 0b011 ∨ modeBits bytes index = 0b101) = true ↔
        AddressingMode.ofBits? (modeBits bytes index) = none := by
    rw [decide_eq_true_iff, AddressingMode.ofBits?_eq_none (modeBits_lt bytes index)]
  have opcodeByte : Opcode.ofByte? (Slot.ofVector bytes).opcodeByte = some opcode := named
  rw [refusal?, if_neg numbered, taken, find?_range opcode.arity_le]
  simp only [unassigned]
  split_ifs with dest src
  · rw [Instruction.ofSlot, opcodeByte, Option.map_some]
    dsimp only
    rw [destBits_eq, Instruction.decodeOperand_unassigned _ _ dest.1 dest.2, errorBind]
  · have destAssigned : 0 < opcode.arity → AddressingMode.ofBits? (modeBits bytes 0) ≠ none :=
      fun used none => dest ⟨used, none⟩
    rw [Instruction.ofSlot, opcodeByte, Option.map_some]
    dsimp only
    rw [destBits_eq, srcBits_eq, Instruction.decodeOperand_ofFields _ _ destAssigned,
      Instruction.decodeOperand_unassigned _ _ src.1 src.2, okBind, errorBind]
  · refine ⟨fun used none => dest ⟨used, ?_⟩, fun used none => src ⟨used, ?_⟩⟩
    · rw [← destBits_eq, none]
    · rw [← srcBits_eq, none]

/-- Eight bytes are refused for their opcode or for a mode; else the encoding of their instruction
is what is left of them without the bits that the opcode does not read, and it is decoded to the
same instruction. -/
theorem decode_canonical (bytes : Vector UInt8 Instruction.byteSize) :
    match refusal? bytes with
    | some error => Instruction.decode? bytes.toList = some (.error error)
    | none => ∃ instruction, Instruction.decode? bytes.toList = some (.ok instruction) ∧
        instruction.encode = .ok (canonical bytes).toList ∧
        Instruction.decode? (canonical bytes).toList = some (.ok instruction) := by
  rw [Slot.decode?_toList]
  cases named : Opcode.ofByte? bytes[0] with
  | none =>
      have opcodeByte : Opcode.ofByte? (Slot.ofVector bytes).opcodeByte = none := named
      rw [refusal?, if_pos (Opcode.ofByte?_eq_none.mp named)]
      dsimp only
      rw [Instruction.ofSlot, opcodeByte]
      rfl
  | some opcode =>
      have settled := refusal?_named bytes named
      cases refused : refusal? bytes with
      | some error =>
          rw [refused] at settled
          exact congrArg some settled
      | none =>
          rw [refused] at settled
          obtain ⟨instruction, decoded, complete, packed⟩ := Slot.ofSlot_assigned named settled
          have taken : arity bytes = opcode.arity := by
            rw [arity, named, Option.map_some, Option.getD_some]
          have encoded : instruction.encode = .ok (canonical bytes).toList := by
            rw [Instruction.encode, packed, ← taken, ← toBytes_canonical]
            rfl
          exact ⟨instruction, congrArg some decoded, encoded,
            Instruction.decode?_encode complete encoded⟩

/-- Nothing but its own byte is left of a halt without flags. -/
example : (canonical #v[0x06, 3, 7, 0xFF, 0xFF, 0xFF, 0xFF, 0x7E]).toList =
    [0x06, 0, 0, 0, 0, 0, 0, 0] := by
  decide +kernel

end Encoding

end RegisterMachine
