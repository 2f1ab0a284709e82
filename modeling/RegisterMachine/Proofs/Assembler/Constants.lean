/-
This file proves that a program sees its constants while it runs. Each of its string operands can be
printed from the address that the layout gives to it, and each name of a value leads to this value.
-/

import RegisterMachine.Proofs.Assembler.Loadable
import RegisterMachine.Proofs.Layout.Contents
import RegisterMachine.Proofs.Machine.Contents
import RegisterMachine.Proofs.Machine.Output
import RegisterMachine.Proofs.Source.Scanning

namespace RegisterMachine

open Source

/-- The bytes of a text before its first zero, or all of them if none is zero. -/
def printedBytes (text : String) : List UInt8 :=
  (Machine.textBytes text).takeWhile (· ≠ 0)

/-- A text ends with a zero in its section. -/
theorem stringBytes_zero (text : String) :
    0 ∈ stringBytes text ∧ (stringBytes text).takeWhile (· ≠ 0) = printedBytes text := by
  have terminated : stringBytes text = Machine.textBytes text ++
      0 :: List.replicate (((Machine.textBytes text ++ [0]).length + 3) / 4 * 4 -
        (Machine.textBytes text ++ [0]).length) 0 := by
    rw [stringBytes, List.rightpad]
    simp [Machine.textBytes]
  rw [terminated]
  constructor
  · simp
  · exact @takeWhile_append_stop UInt8 (· ≠ 0) 0 (by decide) _ _

/-- A character takes a word, which is its zero extension. -/
theorem Word.toBytes_char (byte : UInt8) : Word.toBytes byte.toUInt32 = [byte, 0, 0, 0] := by
  have small := byte.toNat_lt
  simp only [toBytes, UInt8.toNat_toUInt32, Nat.shiftRight_eq_div_pow]
  rw [UInt8.ofNat_toNat, Nat.div_eq_of_lt (by omega), Nat.div_eq_of_lt (by omega),
    Nat.div_eq_of_lt (by omega)]
  rfl

namespace Machine

/-- A text that ends with a zero is found at an address. An instruction that prints from this
address leaves the machine as it is and reports nothing, and the sink takes exactly the bytes of the
text, or fails after as many as there is room for. -/
structure FindsText (machine : Machine) (address : UInt32) (bytes : List UInt8) : Prop where
  read : machine.memory.readText address = .ok (bytes, true)
  print : ∀ sink instruction, instruction.opcode = .printStr →
    machine.prepared.textAddress instruction = .ok address →
      ∃ after taken, sink.Takes bytes after taken ∧
        machine.prepared.execute sink instruction =
          ⟨machine.prepared, after, [], taken.mapError fun reason => .raised (.output reason)⟩

/-- A value is found at an address: the word of a number or a character, or the text of a string. -/
def FindsValue (interner : Interner) (machine : Machine) (address : UInt32) :
    Source.Operand → Prop
  | .integer value => machine.memory.readWord address = .ok value
  | .char byte => machine.memory.readWord address = .ok byte.toUInt32
  | .string name => ∃ text, interner.resolve name = .ok text ∧
      machine.FindsText address (printedBytes text)
  | .register _ | .symbol _ | .absent => False

/-- A text that can be read can be printed. -/
theorem FindsText.of_read {machine : Machine} {address : UInt32} {bytes : List UInt8}
    (read : machine.memory.readText address = .ok (bytes, true)) :
    machine.FindsText address bytes where
  read := read
  print sink instruction opcode located := by
    have found : machine.prepared.foundText instruction = .ok (address, bytes, true) := by
      rw [foundText, located, okBind, show machine.prepared.memory = machine.memory from rfl, read]
      rfl
    refine ⟨_, _, sink.write_takes bytes, ?_⟩
    unfold execute
    rw [opcode]
    dsimp only
    rw [printText_eq, found]
    rfl

/-- The bytes of a value are found as the value. -/
theorem Intact.findsValue {container : Container} {machine : Machine} {interner : Interner}
    {segment : Segment} {address : UInt32} {value : Source.Operand}
    (intact : Intact (some container) machine)
    (held : segment.Holds (container.toSections.of segment) address (value.bytes interner))
    (isValue : value.isValue) (known : Known interner value.names) :
    machine.FindsValue interner address value := by
  obtain ⟨stored, inside⟩ := intact.bytesAt_held held
  cases value with
  | integer value => exact Memory.readWord_stored stored inside
  | char byte =>
      have bytes : (Operand.char byte).bytes interner = Word.toBytes byte.toUInt32 :=
        (Word.toBytes_char byte).symm
      rw [bytes] at stored inside
      exact Memory.readWord_stored stored inside
  | string name =>
      have resolved := Interner.resolve_textOf (known name (List.mem_singleton_self name))
      have bytes : (Operand.string name).bytes interner = stringBytes (interner.textOf name) := by
        simp [Operand.bytes, valueBytes?, resolved]
      rw [bytes] at stored inside
      obtain ⟨zero, printed⟩ := stringBytes_zero (interner.textOf name)
      refine ⟨interner.textOf name, resolved, .of_read ?_⟩
      rw [← printed]
      exact Memory.readText_stored stored zero inside
  | register | symbol | absent => cases isValue

end Machine

namespace Layout

variable {interner : Interner} {program : Program} {layout : Layout}

/-- A layout has an address for each string operand, and a copy of its text there. -/
theorem literal_placed (laid : Layout.ofProgram interner program = .ok layout) {text : Symbol}
    (mentioned : text ∈ program.contents.flatMap Line.literals) :
    ∃ address, (∀ line takesAddress,
        layout.operand interner line takesAddress (.string text) =
          .ok (.immediateAddress address, false)) ∧
      Segment.rodata.Holds layout.rodata.toList address ((Operand.string text).bytes interner) := by
  obtain ⟨agrees, _⟩ := Layout.ofProgram_ok laid
  obtain ⟨rodata, fits⟩ := rodata_eq laid
  have placed := (literalAddress?_isSome interner program.contents text).mpr mentioned
  obtain ⟨address, found⟩ := Option.isSome_iff_exists.mp placed
  refine ⟨address, ?_, ?_⟩
  · intro line takesAddress
    unfold Layout.operand
    dsimp only
    rw [agrees.constants.strings, ← literalAddress?, found]
    rfl
  · rw [rodata]
    exact literalAddress?_holds fits found

/-- A layout has an address for each name that a line binds, and the value of the line there. -/
theorem name_placed (laid : Layout.ofProgram interner program = .ok layout)
    (distinct : (boundNames program.toList).Nodup) {line : Line} {name : Symbol}
    (member : line ∈ program.contents) (binds : line.binds? = some name) :
    ∃ address, layout.symbols.lookup name = some address ∧
      line.StandsAt interner program.contents address := by
  obtain ⟨agrees, _⟩ := Layout.ofProgram_ok laid
  have once : (program.contents.filterMap Line.binds?).Nodup := by
    rw [Program.contents, List.filterMap_map]
    exact distinct
  have placed := (symbolAddress?_isSome interner program.contents name).mpr ⟨line, member, binds⟩
  obtain ⟨address, found⟩ := Option.isSome_iff_exists.mp placed
  refine ⟨address, ?_, ?_⟩
  · rw [agrees.symbols, found]
  · exact symbolAddress?_standsAt once (rodata_eq laid).2 (data_eq laid).2 found member binds

end Layout

/-- A machine finds the constants of a program where the layout has put them. -/
structure Machine.FindsConstants (interner : Interner) (program : Program) (layout : Layout)
    (machine : Machine) : Prop where
  literals : ∀ item ∈ program.instructions, ∀ text, .string text ∈ item.2.operands.toList →
    ∃ address, (∀ line takesAddress,
        layout.operand interner line takesAddress (.string text) =
          .ok (.immediateAddress address, false)) ∧
      machine.FindsValue interner address (.string text)
  data : ∀ name value, .directive .data ⟨.symbol name, value⟩ ∈ program.contents →
    ∃ address, layout.symbols.lookup name = some address ∧
      machine.FindsValue interner address value
  rodata : ∀ name value, .directive .rodata ⟨.symbol name, value⟩ ∈ program.contents →
    ∃ address, layout.symbols.lookup name = some address ∧
      machine.FindsValue interner address value

/-- Whatever a program does, it finds its constants as the source text gives them. -/
theorem assembled_constants {capacity : Nat} {source : String} {container : Container}
    {machine : Machine} (assembled : (assemble capacity source).value = .ok container)
    (session : Machine.Session (some container) machine) :
    ∃ program interner layout, (read capacity source).value = .ok (program, interner) ∧
      (program.emit interner).value = .ok container ∧
      Layout.ofProgram interner program = .ok layout ∧
      machine.FindsConstants interner program layout := by
  obtain ⟨program, interner, parsed, emitted⟩ := assemble_ok assembled
  have fails := Program.emit_fails (read_wellKinded parsed) (read_known parsed)
  have emittable := (program.faults_eq_nil interner).mp (fails.ok_iff.mp ⟨container, emitted⟩)
  obtain ⟨layout, code, laid, _, same⟩ := Program.emit_ok emitted
  have intact := session.intact
  rw [same] at intact
  have lineKnown {line : Line} (member : line ∈ program.contents) :
      Known interner line.names := by
    obtain ⟨numbered, inProgram, rfl⟩ := List.mem_map.mp member
    exact read_known parsed numbered inProgram
  have valueKnown {directive : Directive} {name : Symbol} {value : Source.Operand}
      (member : .directive directive ⟨.symbol name, value⟩ ∈ program.contents) :
      Known interner value.names := fun other mentioned =>
    lineKnown member other (List.mem_append_right _ mentioned)
  refine ⟨program, interner, layout, parsed, emitted, laid, ?_, ?_, ?_⟩
  · intro item member text written
    obtain ⟨line, inProgram, content, _⟩ := Program.mem_instructions.mp member
    have inContents : .instruction item.2 ∈ program.contents :=
      List.mem_map.mpr ⟨line, inProgram, content⟩
    have mentioned : text ∈ program.contents.flatMap Line.literals :=
      List.mem_flatMap.mpr ⟨_, inContents, List.mem_filterMap.mpr ⟨_, written, rfl⟩⟩
    obtain ⟨address, located, held⟩ := Layout.literal_placed laid mentioned
    have known := (lineKnown inContents).operand _ written
    exact ⟨address, located, intact.findsValue held rfl known⟩
  · intro name value member
    obtain ⟨address, bound, held⟩ := Layout.name_placed laid emittable.distinct member rfl
    rw [Line.StandsAt, ← (Layout.data_eq laid).1] at held
    have isValue := emittable.directed _ member
    exact ⟨address, bound, intact.findsValue held isValue (valueKnown member)⟩
  · intro name value member
    obtain ⟨address, bound, held⟩ := Layout.name_placed laid emittable.distinct member rfl
    rw [Line.StandsAt, ← (Layout.rodata_eq laid).1] at held
    have isValue := emittable.directed _ member
    exact ⟨address, bound, intact.findsValue held isValue (valueKnown member)⟩

/-- A program that prints its string has a datum and two constants, and finds them all after its
first step. -/
theorem assembled_constants_print :
    let source := "print_str \"hi\"\n.DATA x 'c'\n.RODATA y \"hi\"\n.RODATA z 7\nhalt"
    ∃ container machine program interner layout,
      (assemble 10 source).value = .ok container ∧
      Machine.Session (some container) machine ∧
      (read 10 source).value = .ok (program, interner) ∧
      Layout.ofProgram interner program = .ok layout ∧
      machine.FindsConstants interner program layout := by
  intro source
  have accepted : (assemble 10 source).value.toOption.any fun container =>
      decide ((Container.ofLoadable container.toBytes).value = .ok container) := by
    decide +kernel
  obtain ⟨container, assembled, loadable⟩ := exists_ok accepted
  have accepted := of_decide_eq_true loadable
  have loaded : ((Machine.empty none).load container.toBytes).value =
      .ok ((Machine.empty none).started container) := by
    rw [Machine.load_eq, accepted]
  have session : Machine.Session (some container)
      (((Machine.empty none).started container).step .unlimited).machine :=
    .step .unlimited (.load container.toBytes container (.empty none) accepted loaded)
  obtain ⟨program, interner, layout, parsed, _, laid, finds⟩ :=
    assembled_constants assembled session
  exact ⟨container, _, program, interner, layout, assembled, session, parsed, laid, finds⟩

end RegisterMachine
