/-
This file proves that the code of a container says what the instructions of its program say. Each
slot decodes to the opcode that was written and to what the assembler makes of each operand.
-/

import RegisterMachine.Proofs.Assembler.Bindings
import RegisterMachine.Proofs.Layout.Existence
import RegisterMachine.Proofs.Simulation.Lockstep

namespace RegisterMachine

open Source

/-- The flags of an instruction stand in the first and the last bit of the last byte. -/
theorem Instruction.encode_flags {instruction : Instruction} {bytes : List UInt8}
    (encoded : instruction.encode = .ok bytes) :
    ∃ flags, bytes.getLast? = some flags ∧
      decide (flags.toNat / 0x80 = 1) = instruction.global ∧
      decide (flags.toNat % 2 = 1) = instruction.sourceImmediate := by
  unfold encode at encoded
  cases found : instruction.toSlot with
  | error reason =>
      rw [found] at encoded
      cases encoded
  | ok slot =>
      rw [found] at encoded
      cases encoded
      obtain ⟨_, immediate, _, fields⟩ := toSlot_ok found
      have packed : slot.flags = Slot.packFlags instruction.global instruction.dest.mode.bits
          instruction.src.mode.bits instruction.sourceImmediate := by
        rw [fields]
      obtain ⟨global, _, _, sourceImmediate⟩ :=
        Slot.packFlags_parts packed instruction.dest.mode.bits_lt instruction.src.mode.bits_lt
      refine ⟨slot.flags, rfl, ?_, sourceImmediate⟩
      rw [← global, Slot.globalFlag, Nat.shiftRight_eq_div_pow]

theorem Instruction.encode_withinArity {instruction : Instruction} {bytes : List UInt8}
    (encoded : instruction.encode = .ok bytes) : instruction.WithinArity := by
  unfold encode at encoded
  cases found : instruction.toSlot with
  | error reason =>
      rw [found] at encoded
      cases encoded
  | ok slot => exact all_absent_iff.mp (toSlot_ok found).1

namespace Layout

/-- What the assembler makes of an operand. Where an address is taken, a register holds it and a
number is it. A string stands for the address of its copy, and a name for its own address. -/
inductive Lowers (interner : Interner) (layout : Layout) :
    (takesAddress : Bool) → Source.Operand → Operand → Prop
  | register (named : Register) :
      Lowers interner layout false (.register named) (.registerDirect named.id)
  | pointer (named : Register) :
      Lowers interner layout true (.register named) (.registerIndirect named.id)
  | integer (value : UInt32) :
      Lowers interner layout false (.integer value) (.immediateInt value)
  | integerAddress (value : UInt32) :
      Lowers interner layout true (.integer value) (.immediateAddress value)
  | char (byte : UInt8) :
      Lowers interner layout false (.char byte) (.immediateInt byte.toUInt32)
  | charAddress (byte : UInt8) :
      Lowers interner layout true (.char byte) (.immediateAddress byte.toUInt32)
  | string (takesAddress : Bool) {text : Symbol} {address : UInt32} {bytes : List UInt8}
      (copied : layout.strings.lookup text = some address)
      (encodes : Encodes interner (.string text) bytes)
      (held : Segment.rodata.Holds layout.rodata.toList address bytes) :
      Lowers interner layout takesAddress (.string text) (.immediateAddress address)
  | symbol (takesAddress : Bool) {name : Symbol} {address : UInt32}
      (bound : layout.symbols.lookup name = some address) :
      Lowers interner layout takesAddress (.symbol name) (.immediateAddress address)
  | absent (takesAddress : Bool) : Lowers interner layout takesAddress .absent .absent

/-- What a slot of the code says about an instruction of the program. -/
structure Expresses (interner : Interner) (program : Program) (layout : Layout)
    (source : Source.Instruction) (slot : List UInt8) (decoded : Instruction) : Prop where
  decodes : Instruction.decode? slot = some (.ok decoded)
  opcode : decoded.opcode = source.opcode
  dest : layout.Lowers interner (source.opcode = .printStr) source.operands.first decoded.dest
  src : layout.Lowers interner (source.opcode = .loadAddr) source.operands.second decoded.src
  complete : decoded.Complete
  withinArity : decoded.WithinArity
  global : decoded.global ↔ ∃ name ∈ source.references, ∃ operands,
    .directive .global operands ∈ program.contents ∧ operands.first = .symbol name
  sourceImmediate : decoded.sourceImmediate = false
  flags : ∃ flags, slot.getLast? = some flags ∧
    decide (flags.toNat / 0x80 = 1) = decoded.global ∧ flags.toNat % 2 = 0

variable {interner : Interner} {program : Program} {layout : Layout} {line : Nat}

/-- The global names are those that a directive declares, on whichever line it stands. -/
theorem isGlobal_iff (records : Placement.Records interner program.toList layout.toPlacement)
    (name : Symbol) :
    layout.isGlobal name ↔ ∃ operands,
      .directive .global operands ∈ program.contents ∧ operands.first = .symbol name := by
  rw [isGlobal_given records, List.mem_filterMap]
  constructor
  · rintro ⟨line, member, given⟩
    obtain ⟨operands, rfl, first⟩ := Line.given?_eq_some.mp given
    exact ⟨operands, member, first⟩
  · rintro ⟨operands, member, first⟩
    exact ⟨_, member, Line.given?_eq_some.mpr ⟨operands, rfl, first⟩⟩

theorem operand_lowers (laid : ofProgram interner program = .ok layout) {takesAddress : Bool}
    {source : Source.Operand} {found : Operand} {global : Bool}
    (located : layout.operand interner line takesAddress source = .ok (found, global)) :
    layout.Lowers interner takesAddress source found ∧
      (global ↔ ∃ name, source.name? = some name ∧ layout.isGlobal name) := by
  obtain ⟨agrees, _⟩ := ofProgram_ok laid
  cases source with
  | register named =>
      cases located
      cases takesAddress with
      | true => exact ⟨.pointer named, by simp [Operand.name?]⟩
      | false => exact ⟨.register named, by simp [Operand.name?]⟩
  | integer value =>
      cases located
      cases takesAddress with
      | true => exact ⟨.integerAddress value, by simp [Operand.name?]⟩
      | false => exact ⟨.integer value, by simp [Operand.name?]⟩
  | char byte =>
      cases located
      cases takesAddress with
      | true => exact ⟨.charAddress byte, by simp [Operand.name?]⟩
      | false => exact ⟨.char byte, by simp [Operand.name?]⟩
  | string text =>
      unfold Layout.operand at located
      dsimp only at located
      cases copied : layout.strings.lookup text with
      | none =>
          rw [copied] at located
          obtain ⟨_, _, thrown⟩ := bindOk located
          cases thrown
      | some address =>
          rw [copied] at located
          cases located
          refine ⟨?_, by simp [Operand.name?]⟩
          have place : literalAddress? interner program.contents text = some address := by
            rw [← copied, agrees.constants.strings, literalAddress?]
          have mentioned := (literalAddress?_isSome interner program.contents text).mp
            (by rw [place]; rfl)
          obtain ⟨rodata, fits⟩ := rodata_eq laid
          refine .string takesAddress copied (literal_encodes laid mentioned) ?_
          rw [rodata]
          exact literalAddress?_holds fits place
  | symbol name =>
      unfold Layout.operand at located
      dsimp only at located
      cases bound : layout.symbols.lookup name with
      | none =>
          rw [bound] at located
          obtain ⟨_, _, thrown⟩ := bindOk located
          cases thrown
      | some address =>
          rw [bound] at located
          cases located
          exact ⟨.symbol takesAddress bound, by simp [Operand.name?]⟩
  | absent =>
      cases located
      exact ⟨.absent takesAddress, by simp [Operand.name?]⟩

/-- An instruction is global if one of its operands is. -/
theorem instruction_flags {source : Source.Instruction} {located : Instruction}
    (done : layout.instruction interner line source = .ok located) :
    ∃ destGlobal srcGlobal,
      layout.operand interner line (source.opcode = .printStr) source.operands.first =
          .ok (located.dest, destGlobal) ∧
        layout.operand interner line (source.opcode = .loadAddr) source.operands.second =
          .ok (located.src, srcGlobal) ∧
        located.global = (destGlobal || srcGlobal) ∧ located.sourceImmediate = false := by
  have firstSlot : (source.opcode.addressSlot? == some 0) =
      decide (source.opcode = .printStr) := by
    cases source.opcode <;> rfl
  have secondSlot : (source.opcode.addressSlot? == some 1) =
      decide (source.opcode = .loadAddr) := by
    cases source.opcode <;> rfl
  obtain ⟨⟨dest, destGlobal⟩, first, done⟩ := bindOk done
  obtain ⟨⟨src, srcGlobal⟩, second, returned⟩ := bindOk done
  rw [firstSlot] at first
  rw [secondSlot] at second
  cases returned
  exact ⟨destGlobal, srcGlobal, first, second, rfl, rfl⟩

/-- The encoded form of an instruction says what the instruction says. -/
theorem instruction_expresses (laid : ofProgram interner program = .ok layout)
    {source : Source.Instruction} {located : Instruction} {slot : List UInt8}
    (filled : source.WellKinded) (done : layout.instruction interner line source = .ok located)
    (encoded : located.encode = .ok slot) :
    layout.Expresses interner program source slot located := by
  obtain ⟨agrees, _⟩ := ofProgram_ok laid
  obtain ⟨statement, _, encodes⟩ := instruction_hasStatement agrees filled done
  obtain ⟨opcode, _, _⟩ := instruction_ok done
  obtain ⟨destGlobal, srcGlobal, first, second, global, sourceImmediate⟩ := instruction_flags done
  obtain ⟨dest, destDeclared⟩ := operand_lowers laid first
  obtain ⟨src, srcDeclared⟩ := operand_lowers laid second
  obtain ⟨flags, last, highest, lowest⟩ := Instruction.encode_flags encoded
  refine ⟨Instruction.decode?_encode encodes.complete encoded, opcode, dest, src, encodes.complete,
    Instruction.encode_withinArity encoded, ?_, sourceImmediate, flags, last, highest, ?_⟩
  · have records := ofProgram_records laid
    rw [global, Bool.or_eq_true, destDeclared, srcDeclared]
    have refers (name : Symbol) : name ∈ source.references ↔
        source.operands.first.name? = some name ∨ source.operands.second.name? = some name := by
      simp [Source.Instruction.references, Operands.toList]
    simp only [isGlobal_iff records, refers, or_and_right, exists_or]
  · rw [sourceImmediate, decide_eq_false_iff_not] at lowest
    omega

end Layout

/-- The code of a container is the code of its program. Each instruction has a slot, and the slot
decodes to what the instruction says. -/
theorem emitted_decodes {names interner : Interner} {capacity : Nat} {tokens : List Token}
    {program : Program} {container : Container}
    (parsed : (parse names capacity tokens).value = .ok (program, interner))
    (emitted : (program.emit interner).value = .ok container) :
    ∃ layout, Layout.ofProgram interner program = .ok layout ∧
      container.rodata = layout.rodata.toList ∧
      container.code.length = 8 * program.instructions.length ∧
      container.code.length = layout.codeLength ∧
      ∀ index line source, program.instructions[index]? = some (line, source) →
        ∃ decoded, layout.Expresses interner program source
          ((container.code.drop (8 * index)).take 8) decoded := by
  obtain ⟨layout, code, laid, encoded, same⟩ := Program.emit_ok emitted
  obtain ⟨agrees, _⟩ := Layout.ofProgram_ok laid
  obtain ⟨codeLength, slots⟩ := Layout.code_slots encoded
  rw [same]
  refine ⟨layout, laid, rfl, codeLength, ?_, ?_⟩
  · rw [agrees.codeLength, program.codeSize_contents]
    exact codeLength
  · intro index line source item
    obtain ⟨located, lowered, bytes⟩ := slots index line source item
    have filled := parse_wellKinded parsed _ (List.mem_of_getElem? item)
    exact ⟨located, Layout.instruction_expresses laid filled lowered bytes⟩

/-- A jump comes before the directive that makes its label global, and a string and a register stand
where an address is taken. -/
theorem emitted_decodes_jump :
    let source := "jmp far\nprint_str r2\nload_addr r1, \"hi\"\n.GLOBAL far\nfar: add r1, 'a'"
    ∃ program interner container layout, (read 10 source).value = .ok (program, interner) ∧
      (program.emit interner).value = .ok container ∧
      Layout.ofProgram interner program = .ok layout ∧
      container.code.length = 32 ∧
      ∀ index line source, program.instructions[index]? = some (line, source) →
        ∃ decoded, layout.Expresses interner program source
          ((container.code.drop (8 * index)).take 8) decoded := by
  intro source
  have accepted : (read 10 source).value.toOption.any fun parsed =>
      decide (parsed.1.instructions.length = 4) &&
        (parsed.1.emit parsed.2).value.toOption.any fun _ => true := by
    decide +kernel
  obtain ⟨⟨program, interner⟩, found, accepted⟩ := exists_ok accepted
  obtain ⟨four, accepted⟩ := Bool.and_eq_true_iff.mp accepted
  obtain ⟨container, emitted, _⟩ := exists_ok accepted
  obtain ⟨_, _, parsed⟩ := andThen_ok found
  obtain ⟨layout, laid, _, length, _, slots⟩ := emitted_decodes (mapErrorOk parsed) emitted
  rw [of_decide_eq_true four] at length
  exact ⟨program, interner, container, layout, found, emitted, laid, length, slots⟩

end RegisterMachine
