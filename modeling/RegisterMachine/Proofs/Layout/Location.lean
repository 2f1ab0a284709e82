/-
This file says what the instructions of a program become. The addresses of the names and of the
strings settle all of it but one flag, and the declared names settle the flag.
-/

import RegisterMachine.Proofs.Layout.Conditions

namespace RegisterMachine

open Source

theorem mapM_ok_iff {α β ε : Type} {change : α → Except ε β} {items : List α} {results : List β} :
    items.mapM change = .ok results ↔
      List.Forall₂ (fun item result => change item = .ok result) items results := by
  induction items generalizing results with
  | nil =>
      rw [List.mapM_nil, List.forall₂_nil_left_iff]
      exact ⟨fun same => (Except.ok.inj same).symm, fun same => congrArg Except.ok same.symm⟩
  | cons first rest inductionHypothesis =>
      rw [List.mapM_cons, List.forall₂_cons_left_iff]
      constructor
      · intro done
        obtain ⟨head, found, done⟩ := bindOk done
        obtain ⟨tail, others, returned⟩ := bindOk done
        exact ⟨head, tail, found, inductionHypothesis.mp others, (Except.ok.inj returned).symm⟩
      · rintro ⟨head, tail, found, others, rfl⟩
        rw [found, okBind, inductionHypothesis.mpr others]
        rfl

namespace Layout

/-- The located form of an operand, if its name or its string has an address. -/
def location? (layout : Layout) (takesAddress : Bool) : Source.Operand → Option Operand
  | .register named =>
      some (if takesAddress then .registerIndirect named.id else .registerDirect named.id)
  | .integer value => some (if takesAddress then .immediateAddress value else .immediateInt value)
  | .char byte =>
      some (if takesAddress then .immediateAddress byte.toUInt32 else .immediateInt byte.toUInt32)
  | .string text => (layout.strings.lookup text).map .immediateAddress
  | .symbol name => (layout.symbols.lookup name).map .immediateAddress
  | .absent => some .absent

/-- An instruction is marked if it refers to a global name. -/
def located? (layout : Layout) (source : Source.Instruction) : Option Instruction :=
  (layout.location? (source.opcode.addressSlot? == some 0) source.operands.first).bind fun dest =>
    (layout.location? (source.opcode.addressSlot? == some 1) source.operands.second).map fun src =>
      { opcode := source.opcode
        dest, src
        global := source.references.any layout.isGlobal
        sourceImmediate := false }

/-- The bytes that the code has for an instruction. -/
def Fills (layout : Layout) (source : Source.Instruction) (bytes : List UInt8) : Prop :=
  ∃ located, layout.located? source = some located ∧ located.encode = .ok bytes

section Instructions

variable {layout : Layout} {interner : Interner} {line : Nat}

theorem operand_ok_iff {takesAddress : Bool} {source : Source.Operand} {found : Operand}
    {global : Bool} :
    layout.operand interner line takesAddress source = .ok (found, global) ↔
      layout.location? takesAddress source = some found ∧
        source.name?.any layout.isGlobal = global := by
  cases source with
  | register | integer | char | absent =>
      simp [operand, location?, Operand.name?, pure, Except.pure]
  | string text =>
      unfold operand
      cases lookup : layout.strings.lookup text with
      | none =>
          simp only [location?, lookup, Option.map_none, reduceCtorEq, false_and, iff_false]
          intro done
          obtain ⟨_, _, thrown⟩ := bindOk done
          cases thrown
      | some address => simp [location?, lookup, Operand.name?, pure, Except.pure]
  | symbol name =>
      unfold operand
      cases lookup : layout.symbols.lookup name with
      | none =>
          simp only [location?, lookup, Option.map_none, reduceCtorEq, false_and, iff_false]
          intro done
          obtain ⟨_, _, thrown⟩ := bindOk done
          cases thrown
      | some address => simp [location?, lookup, Operand.name?, pure, Except.pure]

theorem references_any (source : Source.Instruction) (isGlobal : Symbol → Bool) :
    source.references.any isGlobal =
      (source.operands.first.name?.any isGlobal || source.operands.second.name?.any isGlobal) := by
  rw [Source.Instruction.references, Operands.toList]
  cases first : source.operands.first.name? <;> cases second : source.operands.second.name? <;>
    simp [first, second]

theorem instruction_ok_iff {source : Source.Instruction} {located : Instruction} :
    layout.instruction interner line source = .ok located ↔
      layout.located? source = some located := by
  unfold located?
  rw [references_any]
  constructor
  · intro done
    obtain ⟨⟨dest, destGlobal⟩, first, done⟩ := bindOk done
    obtain ⟨⟨src, srcGlobal⟩, second, returned⟩ := bindOk done
    obtain ⟨destFound, destNamed⟩ := operand_ok_iff.mp first
    obtain ⟨srcFound, srcNamed⟩ := operand_ok_iff.mp second
    rw [destFound, Option.bind_some, srcFound, Option.map_some, destNamed, srcNamed]
    exact congrArg some (Except.ok.inj returned)
  · intro found
    obtain ⟨dest, destFound, found⟩ := Option.bind_eq_some_iff.mp found
    obtain ⟨src, srcFound, same⟩ := Option.map_eq_some_iff.mp found
    have first : layout.operand interner line _ _ = .ok (dest, _) :=
      operand_ok_iff.mpr ⟨destFound, rfl⟩
    have second : layout.operand interner line _ _ = .ok (src, _) :=
      operand_ok_iff.mpr ⟨srcFound, rfl⟩
    rw [instruction, first, second, ← same]
    rfl

theorem encodeInstruction_ok_iff {source : Source.Instruction} {bytes : List UInt8} :
    layout.encodeInstruction interner line source = .ok bytes ↔ layout.Fills source bytes := by
  constructor
  · intro done
    obtain ⟨located, found, encoded⟩ := encodeInstruction_ok done
    exact ⟨located, instruction_ok_iff.mp found, encoded⟩
  · rintro ⟨located, found, encoded⟩
    rw [encodeInstruction, instruction_ok_iff.mpr found, okBind, encoded]
    rfl

/-- The code has the bytes of each instruction in order. -/
theorem code_ok_iff {program : Program} {code : List UInt8} :
    layout.code interner program = .ok code ↔
      ∃ slots, List.Forall₂ layout.Fills (instructionsOf program.contents) slots ∧
        slots.flatten = code := by
  have filled (slots : List (List UInt8)) :
      (program.instructions.mapM fun item => layout.encodeInstruction interner item.1 item.2) =
          .ok slots ↔
        List.Forall₂ layout.Fills (instructionsOf program.contents) slots := by
    rw [mapM_ok_iff, program.instructionsOf_contents, List.forall₂_map_left_iff]
    simp only [encodeInstruction_ok_iff]
  constructor
  · intro done
    obtain ⟨slots, encoded, returned⟩ := bindOk done
    exact ⟨slots, (filled slots).mp encoded, Except.ok.inj returned⟩
  · rintro ⟨slots, fills, same⟩
    unfold Layout.code
    change (program.instructions.mapM (fun item =>
      layout.encodeInstruction interner item.1 item.2) >>= _) = _
    rw [(filled slots).mpr fills, okBind, same]
    rfl

end Instructions

end Layout

end RegisterMachine
