/-
This file settles which programs have a container, and which error is raised for the others. The
instructions of a program that was read are always encoded once their names have addresses.
-/

import RegisterMachine.Proofs.Layout.Checks
import RegisterMachine.Proofs.Simulation.Lowering

namespace RegisterMachine

open Source

/-- The encoded form of a statement fits a slot. -/
theorem Instruction.Encodes.encode_ok {instruction : Instruction} {statement : Statement}
    (encodes : instruction.Encodes statement) : ∃ bytes, instruction.encode = .ok bytes := by
  have slot : ∃ slot, instruction.toSlot = .ok slot := by
    unfold toSlot operands sharedImmediate
    rw [encodes.opcode, encodes.dest, encodes.src]
    cases statement with
    | printCharacter | complement | compare | call | returnFromCall | push | pop | halt =>
        exact ⟨_, rfl⟩
    | printText text => cases text <;> exact ⟨_, rfl⟩
    | move dest source | loadAddress dest source => cases source <;> exact ⟨_, rfl⟩
    | compute operation dest source => cases operation <;> cases source <;> exact ⟨_, rfl⟩
    | jump condition target => cases condition <;> exact ⟨_, rfl⟩
  obtain ⟨fields, found⟩ := slot
  exact ⟨fields.toBytes, by rw [encode, found]; rfl⟩

namespace Layout

variable {layout : Layout} {interner : Interner} {program : Program} {line : Nat}

/-- An operand is located unless it is a name without an address. -/
theorem operand_fails (agrees : Placement.Agrees interner program.contents layout.toPlacement)
    {operand : Source.Operand} (known : Known interner operand.names)
    (copied : ∀ text, operand = .string text → text ∈ program.contents.flatMap Line.literals)
    (takesAddress : Bool) :
    FailsFirst (operand.name?.toList.filterMap (program.undefined? interner line))
      (layout.operand interner line takesAddress operand) := by
  cases operand with
  | register | integer | char | absent => exact .done _
  | string text =>
      have placed := (literalAddress?_isSome interner program.contents text).mpr (copied text rfl)
      obtain ⟨address, found⟩ := Option.isSome_iff_exists.mp placed
      unfold Layout.operand
      dsimp only
      rw [agrees.constants.strings, ← literalAddress?, found]
      exact .done _
  | symbol name =>
      have bound : name ∈ boundNames program.toList ↔
          (symbolAddress? interner program.contents name).isSome :=
        mem_boundNames interner program.toList name
      unfold Layout.operand
      dsimp only [Operand.name?, Option.toList_some]
      rw [agrees.symbols]
      cases found : symbolAddress? interner program.contents name with
      | none =>
          have fault : program.undefined? interner line name =
              some (.undefinedSymbol line (interner.textOf name)) :=
            if_neg (by rw [bound, found]; exact Bool.false_ne_true)
          rw [List.filterMap_cons_some fault]
          have knows := known name (List.mem_singleton_self name)
          dsimp only
          rw [Placement.raise_textOf knows (.undefinedSymbol line)]
          exact .raised _ []
      | some address =>
          have noFault : program.undefined? interner line name = none := by
            rw [Program.undefined?_eq_none, bound, found]
            rfl
          rw [List.filterMap_cons_none noFault]
          exact .done _

/-- The first operand of an instruction counts before the second. -/
theorem instruction_fails (agrees : Placement.Agrees interner program.contents layout.toPlacement)
    {source : Source.Instruction} (known : Known interner source.operands.names)
    (copied : ∀ text ∈ (Line.instruction source).literals,
      text ∈ program.contents.flatMap Line.literals) :
    FailsFirst (program.instructionFaults interner line source)
      (layout.instruction interner line source) := by
  have references : source.references =
      source.operands.first.name?.toList ++ source.operands.second.name?.toList := by
    cases first : source.operands.first.name? <;> cases second : source.operands.second.name? <;>
      simp [Source.Instruction.references, Operands.toList, first, second]
  have each : ∀ operand ∈ source.operands.toList, ∀ text, operand = .string text →
      text ∈ program.contents.flatMap Line.literals := by
    intro operand member text isText
    apply copied text
    exact List.mem_filterMap.mpr ⟨operand, member, by rw [isText]; rfl⟩
  rw [Program.instructionFaults, references, List.filterMap_append]
  apply (operand_fails agrees (fun name member => known name (List.mem_append_left _ member))
    (each _ (by simp [Operands.toList])) _).bind
  intro dest _
  rw [← List.append_nil (source.operands.second.name?.toList.filterMap _)]
  apply (operand_fails agrees (fun name member => known name (List.mem_append_right _ member))
    (each _ (by simp [Operands.toList])) _).bind
  intro src _
  exact .done _

/-- Encoding adds no failure of its own. -/
theorem encodeInstruction_fails
    (agrees : Placement.Agrees interner program.contents layout.toPlacement)
    {source : Source.Instruction} (filled : source.WellKinded)
    (known : Known interner source.operands.names)
    (copied : ∀ text ∈ (Line.instruction source).literals,
      text ∈ program.contents.flatMap Line.literals) :
    FailsFirst (program.instructionFaults interner line source)
      (layout.encodeInstruction interner line source) := by
  rw [← List.append_nil (program.instructionFaults interner line source)]
  apply (instruction_fails agrees known copied).bind
  intro located done
  obtain ⟨statement, _, encodes⟩ := instruction_hasStatement agrees filled done
  obtain ⟨bytes, encoded⟩ := encodes.encode_ok
  rw [encoded]
  exact .done bytes

end Layout

namespace Source.Program

variable {interner : Interner} {program : Program}

/-- The code is encoded unless a reference is not bound. -/
theorem code_fails {layout : Layout}
    (agrees : Placement.Agrees interner program.contents layout.toPlacement)
    (filled : ∀ item ∈ program.instructions, item.2.WellKinded)
    (known : ∀ line ∈ program.toList, Known interner line.content.names) :
    FailsFirst (program.undefinedReferences interner) (layout.code interner program) := by
  rw [← List.append_nil (program.undefinedReferences interner)]
  apply FailsFirst.bind
  · apply FailsFirst.mapM
    rintro ⟨line, source⟩ member
    obtain ⟨numbered, inProgram, content, _⟩ := mem_instructions.mp member
    have knownLine := known numbered inProgram
    rw [content] at knownLine
    apply Layout.encodeInstruction_fails agrees (filled _ member) knownLine
    intro text literal
    apply List.mem_flatMap.mpr
    exact ⟨.instruction source, List.mem_map.mpr ⟨numbered, inProgram, content⟩, literal⟩
  · intro slots _
    exact .done slots.flatten

/-- A container comes from a layout and from the code that is encoded with it. -/
theorem emit_value :
    (program.emit interner).value =
      (Layout.ofProgram interner program >>= fun layout =>
        layout.code interner program >>= fun code =>
          .ok (Container.ofSections ⟨code, layout.rodata.toList, layout.data.toList⟩
            layout.entryPoint)) := by
  unfold emit
  cases Layout.ofProgram interner program with
  | error reason => rfl
  | ok layout =>
      dsimp only [bind, Except.bind]
      cases layout.code interner program with
      | error reason => rfl
      | ok code => rfl

/-- A program has a container unless something is wrong with it, and what is wrong first is
raised. -/
theorem emit_fails (filled : ∀ item ∈ program.instructions, item.2.WellKinded)
    (known : ∀ line ∈ program.toList, Known interner line.content.names) :
    FailsFirst (program.faults interner) (program.emit interner).value := by
  have twoPasses : program.faults interner =
      (lineFaults interner [] program.toList ++ (program.overflows interner ++
        (program.undefinedGlobals interner ++ program.misplacedStarts interner))) ++
        program.undefinedReferences interner := by
    simp only [faults, List.append_assoc]
  rw [twoPasses, emit_value]
  apply (Layout.ofProgram_fails known).bind
  intro layout laid
  have agrees := (Layout.ofProgram_ok laid).1
  rw [← List.append_nil (program.undefinedReferences interner)]
  apply (code_fails agrees filled known).bind
  intro code _
  exact .done _

end Source.Program

/-- A source text that was read is assembled exactly if its program is what it must be, and
otherwise the first thing that is wrong with it is raised. -/
theorem assembled_firstFault {capacity : Nat} {source : String} {program : Program}
    {interner : Interner} (parsed : (read capacity source).value = .ok (program, interner)) :
    ((∃ container, (program.emit interner).value = .ok container) ↔
        program.Emittable interner) ∧
      ∀ reason, (program.emit interner).value = .error reason ↔
        ∃ error, reason = .raised error ∧ (program.faults interner).head? = some error := by
  have fails := Program.emit_fails (read_wellKinded parsed) (read_known parsed)
  exact ⟨fails.ok_iff.trans (program.faults_eq_nil interner), fails.error_iff⟩

/-- A label that is bound twice counts before an earlier jump to an unknown name. -/
theorem assembled_firstFault_duplicate :
    ∃ program interner, (read 10 "a:\njmp b\na:").value = .ok (program, interner) ∧
      (program.emit interner).value = .error (.raised (.duplicateSymbol 3 "a")) := by
  have refused : (read 10 "a:\njmp b\na:").value.toOption.any fun parsed =>
      (parsed.1.faults parsed.2).head? == some (.duplicateSymbol 3 "a") := by
    decide +kernel
  obtain ⟨⟨program, interner⟩, parsed, first⟩ := exists_ok refused
  refine ⟨program, interner, parsed, ?_⟩
  exact ((assembled_firstFault parsed).2 _).mpr ⟨_, rfl, beq_iff_eq.mp first⟩

end RegisterMachine
