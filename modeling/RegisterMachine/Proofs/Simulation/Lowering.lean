/-
This file proves that the assembler encodes each instruction as the statement that it means. The
kinds that the parser checked decide the form of every operand.
-/

import RegisterMachine.Proofs.Layout.Code
import RegisterMachine.Proofs.Simulation.Execution
import RegisterMachine.Proofs.Source.Kinds

namespace RegisterMachine

open Source

namespace Source.Operand

theorem eq_register {operand : Operand}
    (accepted : OperandKind.register.accepts operand.kind) :
    ∃ named, operand = .register named := by
  cases operand with
  | register named => exact ⟨named, rfl⟩
  | integer | char | string | symbol | absent => cases accepted

theorem eq_symbol {operand : Operand} (accepted : OperandKind.symbol.accepts operand.kind) :
    ∃ name, operand = .symbol name := by
  cases operand with
  | symbol name => exact ⟨name, rfl⟩
  | register | integer | char | string | absent => cases accepted

theorem eq_absent {operand : Operand} (accepted : OperandKind.nothing.accepts operand.kind) :
    operand = .absent := by
  cases operand with
  | absent => rfl
  | register | integer | char | string | symbol => cases accepted

end Source.Operand

namespace Layout

variable {layout : Layout} {interner : Interner} {lines : List Line} {line : Nat}
  {source : Source.Operand} {found : Operand} {global : Bool}

/-- A register operand becomes the register itself where no address is taken. -/
theorem operand_register (accepted : OperandKind.register.accepts source.kind)
    (located : layout.operand interner line false source = .ok (found, global)) :
    ∃ named, source.register? = some named ∧ found = .ofRegister named := by
  obtain ⟨named, same⟩ := Operand.eq_register accepted
  subst same
  cases located
  exact ⟨named, rfl, rfl⟩

/-- The operand of a jump becomes the address of its name. -/
theorem operand_symbol (agrees : Placement.Agrees interner lines layout.toPlacement)
    (accepted : OperandKind.symbol.accepts source.kind) {takesAddress : Bool}
    (located : layout.operand interner line takesAddress source = .ok (found, global)) :
    ∃ target, source.target? interner lines = some target ∧
      found = .immediateAddress target := by
  obtain ⟨name, same⟩ := Operand.eq_symbol accepted
  subst same
  unfold Layout.operand at located
  dsimp only at located
  rw [agrees.symbols] at located
  cases place : symbolAddress? interner lines name with
  | none =>
      rw [place] at located
      obtain ⟨_, _, thrown⟩ := bindOk located
      cases thrown
  | some address =>
      rw [place] at located
      cases located
      exact ⟨address, place, rfl⟩

theorem operand_nothing (accepted : OperandKind.nothing.accepts source.kind)
    {takesAddress : Bool}
    (located : layout.operand interner line takesAddress source = .ok (found, global)) :
    found = .absent := by
  rw [Operand.eq_absent accepted] at located
  cases located
  rfl

/-- Every other operand becomes what it means, as a value or as an address. -/
theorem operand_source (agrees : Placement.Agrees interner lines layout.toPlacement)
    (accepted : OperandKind.source.accepts source.kind) {takesAddress : Bool}
    (located : layout.operand interner line takesAddress source = .ok (found, global)) :
    ∃ meaning, source.meaning? interner lines = some meaning ∧
      found = if takesAddress then meaning.addressOperand else meaning.operand := by
  cases source with
  | register named =>
      cases located
      exact ⟨.register named, rfl, rfl⟩
  | integer value =>
      cases located
      exact ⟨.number value, rfl, rfl⟩
  | char byte =>
      cases located
      exact ⟨.number byte.toUInt32, rfl, rfl⟩
  | string text =>
      unfold Layout.operand at located
      dsimp only at located
      have known := agrees.constants.strings text
      rw [known] at located
      cases place : literalAddress? interner lines text with
      | none =>
          rw [literalAddress?] at place
          rw [place] at located
          obtain ⟨_, _, thrown⟩ := bindOk located
          cases thrown
      | some address =>
          refine ⟨.address address, ?_, ?_⟩
          · rw [Operand.meaning?, place]
            rfl
          · rw [literalAddress?] at place
            rw [place] at located
            cases located
            cases takesAddress <;> rfl
  | symbol name =>
      obtain ⟨target, place, same⟩ := operand_symbol agrees rfl located
      have address : symbolAddress? interner lines name = some target := place
      refine ⟨.address target, ?_, ?_⟩
      · rw [Operand.meaning?, address]
        rfl
      · rw [same]
        cases takesAddress <;> rfl
  | absent => cases accepted

theorem instruction_ok {source : Source.Instruction} {located : Instruction}
    (done : layout.instruction interner line source = .ok located) :
    located.opcode = source.opcode ∧
      (∃ global, layout.operand interner line (source.opcode.addressSlot? == some 0)
        source.operands.first = .ok (located.dest, global)) ∧
      (∃ global, layout.operand interner line (source.opcode.addressSlot? == some 1)
        source.operands.second = .ok (located.src, global)) := by
  obtain ⟨⟨dest, destGlobal⟩, first, done⟩ := bindOk done
  obtain ⟨⟨src, srcGlobal⟩, second, returned⟩ := bindOk done
  cases returned
  exact ⟨rfl, ⟨destGlobal, first⟩, ⟨srcGlobal, second⟩⟩

end Layout

namespace Layout

variable {layout : Layout} {interner : Interner} {lines : List Line} {line : Nat}
  {source : Source.Instruction} {located : Instruction}

/-- An instruction without operands. -/
theorem lower_plain (statement : Statement) (slots : source.opcode.slots = [])
    (form : statement.located = (source.opcode, .absent, .absent))
    (filled : source.WellKinded)
    (done : layout.instruction interner line source = .ok located) :
    located.Encodes statement := by
  obtain ⟨opcode, ⟨_, first⟩, ⟨_, second⟩⟩ := instruction_ok done
  have firstFilled := filled.first
  have secondFilled := filled.second
  rw [Opcode.slot, slots] at firstFilled secondFilled
  refine ⟨?_, ?_, ?_⟩
  · rw [form, opcode]
  · rw [form, operand_nothing firstFilled first]
  · rw [form, operand_nothing secondFilled second]

/-- An instruction with one register. -/
theorem lower_register (make : Register → Statement) (slots : source.opcode.slots = [.register])
    (value : source.opcode.addressSlot? = none)
    (form : ∀ named, (make named).located = (source.opcode, .ofRegister named, .absent))
    (filled : source.WellKinded)
    (done : layout.instruction interner line source = .ok located) :
    ∃ named, source.operands.first.register? = some named ∧ located.Encodes (make named) := by
  obtain ⟨opcode, ⟨_, first⟩, ⟨_, second⟩⟩ := instruction_ok done
  have firstFilled := filled.first
  have secondFilled := filled.second
  rw [Opcode.slot, slots] at firstFilled secondFilled
  rw [value] at first
  obtain ⟨named, means, found⟩ := operand_register firstFilled first
  refine ⟨named, means, ?_, ?_, ?_⟩
  · rw [form, opcode]
  · rw [form, found]
  · rw [form, operand_nothing secondFilled second]

/-- An instruction with a register and a source. -/
theorem lower_source (make : Register → Meaning → Statement)
    (agrees : Placement.Agrees interner lines layout.toPlacement)
    (slots : source.opcode.slots = [.register, .source])
    (value : source.opcode.addressSlot? ≠ some 0)
    (form : ∀ named meaning, (make named meaning).located =
      (source.opcode, .ofRegister named,
        if source.opcode.addressSlot? == some 1 then meaning.addressOperand
        else meaning.operand))
    (filled : source.WellKinded)
    (done : layout.instruction interner line source = .ok located) :
    ∃ named meaning, source.operands.first.register? = some named ∧
      source.operands.second.meaning? interner lines = some meaning ∧
      located.Encodes (make named meaning) := by
  obtain ⟨opcode, ⟨_, first⟩, ⟨_, second⟩⟩ := instruction_ok done
  have firstFilled := filled.first
  have secondFilled := filled.second
  rw [Opcode.slot, slots] at firstFilled secondFilled
  rw [beq_false_of_ne value] at first
  obtain ⟨named, means, found⟩ := operand_register firstFilled first
  obtain ⟨meaning, sourceMeans, sourceFound⟩ := operand_source agrees secondFilled second
  refine ⟨named, meaning, means, sourceMeans, ?_, ?_, ?_⟩
  · rw [form, opcode]
  · rw [form, found]
  · rw [form, sourceFound]

/-- A jump or a call to a name. -/
theorem lower_target (make : UInt32 → Statement)
    (agrees : Placement.Agrees interner lines layout.toPlacement)
    (slots : source.opcode.slots = [.symbol])
    (form : ∀ target, (make target).located =
      (source.opcode, .immediateAddress target, .absent))
    (filled : source.WellKinded)
    (done : layout.instruction interner line source = .ok located) :
    ∃ target, source.operands.first.target? interner lines = some target ∧
      located.Encodes (make target) := by
  obtain ⟨opcode, ⟨_, first⟩, ⟨_, second⟩⟩ := instruction_ok done
  have firstFilled := filled.first
  have secondFilled := filled.second
  rw [Opcode.slot, slots] at firstFilled secondFilled
  obtain ⟨target, means, found⟩ := operand_symbol agrees firstFilled first
  refine ⟨target, means, ?_, ?_, ?_⟩
  · rw [form, opcode]
  · rw [form, found]
  · rw [form, operand_nothing secondFilled second]

/-- The text of an output instruction. -/
theorem lower_text (agrees : Placement.Agrees interner lines layout.toPlacement)
    (printStr : source.opcode = .printStr) (filled : source.WellKinded)
    (done : layout.instruction interner line source = .ok located) :
    ∃ text, source.operands.first.meaning? interner lines = some text ∧
      located.Encodes (.printText text) := by
  obtain ⟨opcode, ⟨_, first⟩, ⟨_, second⟩⟩ := instruction_ok done
  have firstFilled := filled.first
  have secondFilled := filled.second
  rw [printStr] at opcode first firstFilled secondFilled
  obtain ⟨text, means, found⟩ := operand_source agrees firstFilled first
  exact ⟨text, means, opcode, found, operand_nothing secondFilled second⟩

theorem statement?_compute {operation : Operation} {dest : Register} {meaning : Meaning}
    (opcode : source.opcode = operation.opcode)
    (register : source.operands.first.register? = some dest)
    (means : source.operands.second.meaning? interner lines = some meaning) :
    source.statement? interner lines = some (.compute operation dest meaning) := by
  cases operation <;>
    simp [Instruction.statement?, opcode, Operation.opcode, register, means]

theorem statement?_jump {condition : Condition} {target : UInt32}
    (opcode : source.opcode = condition.opcode)
    (means : source.operands.first.target? interner lines = some target) :
    source.statement? interner lines = some (.jump condition target) := by
  cases condition <;> simp [Instruction.statement?, opcode, Condition.opcode, means]

/-- What the assembler encodes an instruction as. -/
def HasStatement (interner : Interner) (lines : List Line) (source : Source.Instruction)
    (located : Instruction) : Prop :=
  ∃ statement, source.statement? interner lines = some statement ∧ located.Encodes statement

theorem compute_hasStatement (operation : Operation)
    (agrees : Placement.Agrees interner lines layout.toPlacement) (filled : source.WellKinded)
    (done : layout.instruction interner line source = .ok located)
    (opcode : source.opcode = operation.opcode) :
    HasStatement interner lines source located := by
  obtain ⟨dest, meaning, register, means, encodes⟩ :=
    lower_source (.compute operation) agrees (by rw [opcode]; cases operation <;> rfl)
      (by rw [opcode]; cases operation <;> decide)
      (by rw [opcode]; cases operation <;> intros <;> rfl) filled done
  exact ⟨_, statement?_compute opcode register means, encodes⟩

theorem jump_hasStatement (condition : Condition)
    (agrees : Placement.Agrees interner lines layout.toPlacement) (filled : source.WellKinded)
    (done : layout.instruction interner line source = .ok located)
    (opcode : source.opcode = condition.opcode) :
    HasStatement interner lines source located := by
  obtain ⟨target, means, encodes⟩ :=
    lower_target (.jump condition) agrees (by rw [opcode]; exact condition.opcode_slots)
      (fun _ => by rw [opcode]; rfl) filled done
  exact ⟨_, statement?_jump opcode means, encodes⟩

theorem register_hasStatement (make : Register → Statement) (filled : source.WellKinded)
    (done : layout.instruction interner line source = .ok located)
    (slots : source.opcode.slots = [.register]) (value : source.opcode.addressSlot? = none)
    (form : ∀ named, (make named).located = (source.opcode, .ofRegister named, .absent))
    (means : source.statement? interner lines = source.operands.first.register?.map make) :
    HasStatement interner lines source located := by
  obtain ⟨named, register, encodes⟩ := lower_register make slots value form filled done
  rw [register] at means
  exact ⟨_, means, encodes⟩

/-- The assembler encodes each instruction as its statement. -/
theorem instruction_hasStatement (agrees : Placement.Agrees interner lines layout.toPlacement)
    (filled : source.WellKinded)
    (done : layout.instruction interner line source = .ok located) :
    HasStatement interner lines source located := by
  cases opcode : source.opcode
  case printChr =>
    apply register_hasStatement .printCharacter filled done <;>
      simp [Instruction.statement?, opcode, Opcode.slots, Opcode.addressSlot?, Statement.located]
  case not =>
    apply register_hasStatement .complement filled done <;>
      simp [Instruction.statement?, opcode, Opcode.slots, Opcode.addressSlot?, Statement.located]
  case push =>
    apply register_hasStatement .push filled done <;>
      simp [Instruction.statement?, opcode, Opcode.slots, Opcode.addressSlot?, Statement.located]
  case pop =>
    apply register_hasStatement .pop filled done <;>
      simp [Instruction.statement?, opcode, Opcode.slots, Opcode.addressSlot?, Statement.located]
  case printStr =>
    obtain ⟨text, means, encodes⟩ := lower_text agrees opcode filled done
    exact ⟨.printText text, by simp [Instruction.statement?, opcode, means], encodes⟩
  case mov =>
    obtain ⟨dest, meaning, register, means, encodes⟩ :=
      lower_source .move agrees (by rw [opcode]; rfl) (by rw [opcode]; decide)
        (by rw [opcode]; intros; rfl) filled done
    exact ⟨_, by simp [Instruction.statement?, opcode, register, means], encodes⟩
  case loadAddr =>
    obtain ⟨dest, meaning, register, means, encodes⟩ :=
      lower_source .loadAddress agrees (by rw [opcode]; rfl) (by rw [opcode]; decide)
        (by rw [opcode]; intros; rfl) filled done
    exact ⟨_, by simp [Instruction.statement?, opcode, register, means], encodes⟩
  case add => exact compute_hasStatement .add agrees filled done opcode
  case sub => exact compute_hasStatement .sub agrees filled done opcode
  case mul => exact compute_hasStatement .mul agrees filled done opcode
  case div => exact compute_hasStatement .div agrees filled done opcode
  case mod => exact compute_hasStatement .mod agrees filled done opcode
  case and => exact compute_hasStatement .and agrees filled done opcode
  case or => exact compute_hasStatement .or agrees filled done opcode
  case jmp => exact jump_hasStatement .always agrees filled done opcode
  case jz => exact jump_hasStatement .zero agrees filled done opcode
  case jnz => exact jump_hasStatement .nonzero agrees filled done opcode
  case jeq => exact jump_hasStatement .equal agrees filled done opcode
  case jgt => exact jump_hasStatement .greater agrees filled done opcode
  case jge => exact jump_hasStatement .atLeast agrees filled done opcode
  case jlt => exact jump_hasStatement .less agrees filled done opcode
  case jle => exact jump_hasStatement .atMost agrees filled done opcode
  case call =>
    obtain ⟨target, means, encodes⟩ := lower_target .call agrees (by rw [opcode]; rfl)
      (fun _ => by rw [opcode]; rfl) filled done
    exact ⟨_, by simp [Instruction.statement?, opcode, means], encodes⟩
  case cmp =>
    have encodes := lower_plain .compare (by rw [opcode]; rfl) (by rw [opcode]; rfl) filled done
    exact ⟨_, by simp [Instruction.statement?, opcode], encodes⟩
  case ret =>
    have encodes := lower_plain .returnFromCall (by rw [opcode]; rfl) (by rw [opcode]; rfl)
      filled done
    exact ⟨_, by simp [Instruction.statement?, opcode], encodes⟩
  case halt =>
    have encodes := lower_plain .halt (by rw [opcode]; rfl) (by rw [opcode]; rfl) filled done
    exact ⟨_, by simp [Instruction.statement?, opcode], encodes⟩

end Layout

end RegisterMachine
