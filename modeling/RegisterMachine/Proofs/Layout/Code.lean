/-
This file proves that the code of a layout is one slot for each instruction, in order, and that
the sections of a layout fit their segments.
-/

import RegisterMachine.Assembler
import RegisterMachine.Proofs.Instruction.Codec
import RegisterMachine.Proofs.Layout.Placement
import RegisterMachine.Proofs.Machine.Image

namespace RegisterMachine

open Source

/-- The lines of a program without their numbers. -/
def Source.Program.contents (program : Program) : List Line :=
  program.toList.map NumberedLine.content

theorem Source.Program.instructionsOf_contents (program : Program) :
    instructionsOf program.contents = program.instructions.map Prod.snd := by
  rw [instructionsOf, contents, instructions, List.filterMap_map, List.map_filterMap]
  congr 1
  funext line
  change line.content.instruction? = _
  cases line.content <;> rfl

theorem Source.Program.codeSize_contents (program : Program) :
    codeSize program.contents =
      RegisterMachine.Instruction.byteSize * program.instructions.length := by
  rw [codeSize_instructionsOf, program.instructionsOf_contents, List.length_map]

/-- Each result comes from the item at its place. -/
theorem mapM_ok {α β ε : Type} {change : α → Except ε β} {items : List α} {results : List β}
    (done : items.mapM change = .ok results) :
    results.length = items.length ∧
      ∀ (index : Nat) (item : α), items[index]? = some item →
        ∃ result, results[index]? = some result ∧ change item = .ok result := by
  induction items generalizing results with
  | nil =>
      rw [← Except.ok.inj done]
      simp
  | cons first rest inductionHypothesis =>
      rw [List.mapM_cons] at done
      obtain ⟨head, found, done⟩ := bindOk done
      obtain ⟨tail, others, returned⟩ := bindOk done
      rw [← Except.ok.inj returned]
      obtain ⟨lengths, places⟩ := inductionHypothesis others
      refine ⟨congrArg (· + 1) lengths, ?_⟩
      intro index item at_index
      cases index with
      | zero =>
          cases at_index
          exact ⟨head, rfl, found⟩
      | succ index => exact places index item at_index

/-- Rows of one size are found again at multiples of it. -/
theorem flatten_slot {α : Type} {rows : List (List α)} {size : Nat}
    (sizes : ∀ row ∈ rows, row.length = size) {index : Nat} {row : List α}
    (found : rows[index]? = some row) : (rows.flatten.drop (size * index)).take size = row := by
  induction rows generalizing index with
  | nil => cases found
  | cons first rest inductionHypothesis =>
      have firstSize := sizes first (List.mem_cons_self ..)
      cases index with
      | zero =>
          cases found
          rw [Nat.mul_zero, List.drop_zero, List.flatten_cons, ← firstSize, List.take_left]
      | succ index =>
          have later : size * (index + 1) = first.length + size * index := by
            rw [firstSize, Nat.mul_succ, Nat.add_comm]
          rw [List.flatten_cons, later, ← List.drop_drop, List.drop_left]
          exact inductionHypothesis (fun row member => sizes row (List.mem_cons_of_mem _ member))
            found

theorem flatten_length {α : Type} {rows : List (List α)} {size : Nat}
    (sizes : ∀ row ∈ rows, row.length = size) : rows.flatten.length = size * rows.length := by
  rw [List.length_flatten, List.map_congr_left sizes, List.map_const', List.sum_replicate_nat,
    Nat.mul_comm]

namespace Placement

/-- Sections that pass the check fit their segments. -/
theorem checkCapacity_ok {placement : Placement} (checked : placement.checkCapacity = .ok ()) :
    placement.codeLength ≤ Segment.code.size.toNat ∧
      placement.rodata.size ≤ Segment.rodata.size.toNat ∧
      placement.data.size ≤ Segment.data.size.toNat := by
  unfold checkCapacity at checked
  split at checked
  · cases checked
  · rename_i fits
    simp only [sectionSizes, List.find?_eq_none, List.mem_cons, List.not_mem_nil, or_false,
      decide_eq_true_eq, Nat.not_lt, forall_eq_or_imp, forall_eq] at fits
    exact fits

/-- The entry point is the address of the name that a start gives, which lies in the code, or the
start of the code if there is none. -/
theorem entryPoint_ok {interner : Interner} {placement : Placement} {offset : UInt32}
    (found : placement.entryPoint interner = .ok offset) :
    (placement.entry = none ∧ offset = 0) ∨
      ∃ target line, placement.entry = some (target, line) ∧
        placement.symbols.lookup target = some offset ∧
        offset.toNat < placement.codeLength := by
  unfold entryPoint at found
  split at found
  · rename_i none
    cases found
    exact .inl ⟨none, rfl⟩
  · rename_i target line given
    split at found
    · obtain ⟨_, _, thrown⟩ := bindOk found
      cases thrown
    · rename_i address bound
      dsimp only at found
      split at found
      · rename_i inside
        cases found
        refine .inr ⟨target, line, given, ?_, inside.2⟩
        rw [bound, show Segment.code.base = 0 from rfl, UInt32.sub_zero]
      · obtain ⟨_, _, thrown⟩ := bindOk found
        cases thrown

end Placement

namespace Layout

/-- A layout is what the lines have placed, and it has passed every check. -/
theorem ofProgram_stages {interner : Interner} {program : Program} {layout : Layout}
    (done : ofProgram interner program = .ok layout) :
    program.toList.foldlM (Placement.addLine interner) .empty = .ok layout.toPlacement ∧
      layout.toPlacement.checkCapacity = .ok () ∧
      layout.toPlacement.checkGlobals interner = .ok () ∧
      layout.toPlacement.entryPoint interner = .ok layout.entryPoint := by
  obtain ⟨placement, placed, done⟩ := bindOk done
  obtain ⟨_, fits, done⟩ := bindOk done
  obtain ⟨_, defined, done⟩ := bindOk done
  obtain ⟨entryPoint, found, returned⟩ := bindOk done
  rw [← Except.ok.inj returned]
  exact ⟨placed, mapErrorOk fits, defined, found⟩

/-- A layout agrees with the lines of its program, and its sections fit. -/
theorem ofProgram_ok {interner : Interner} {program : Program} {layout : Layout}
    (done : ofProgram interner program = .ok layout) :
    Placement.Agrees interner program.contents layout.toPlacement ∧
      layout.codeLength ≤ Segment.code.size.toNat ∧
      layout.rodata.size ≤ Segment.rodata.size.toNat ∧
      layout.data.size ≤ Segment.data.size.toNat := by
  obtain ⟨placed, fits, _⟩ := ofProgram_stages done
  exact ⟨Placement.addLines_agrees (Placement.empty_agrees interner) placed,
    Placement.checkCapacity_ok fits⟩

theorem ofProgram_entryPoint {interner : Interner} {program : Program} {layout : Layout}
    (done : ofProgram interner program = .ok layout) :
    layout.toPlacement.entryPoint interner = .ok layout.entryPoint := by
  obtain ⟨_, _, _, found⟩ := ofProgram_stages done
  exact found

theorem encodeInstruction_ok {layout : Layout} {interner : Interner} {line : Nat}
    {source : Source.Instruction} {bytes : List UInt8}
    (done : layout.encodeInstruction interner line source = .ok bytes) :
    ∃ located, layout.instruction interner line source = .ok located ∧
      located.encode = .ok bytes := by
  obtain ⟨located, found, encoded⟩ := bindOk done
  exact ⟨located, found, mapErrorOk encoded⟩

/-- The code is one slot for each instruction. -/
theorem code_slots {layout : Layout} {interner : Interner} {program : Program}
    {code : List UInt8} (done : layout.code interner program = .ok code) :
    code.length = Instruction.byteSize * program.instructions.length ∧
      ∀ index line source, program.instructions[index]? = some (line, source) →
        ∃ located, layout.instruction interner line source = .ok located ∧
          located.encode =
            .ok ((code.drop (Instruction.byteSize * index)).take Instruction.byteSize) := by
  obtain ⟨slots, encoded, returned⟩ := bindOk done
  rw [← Except.ok.inj returned]
  obtain ⟨lengths, places⟩ := mapM_ok encoded
  have sizes : ∀ slot ∈ slots, slot.length = Instruction.byteSize := by
    intro slot member
    obtain ⟨index, inside, found⟩ := List.getElem_of_mem member
    obtain ⟨⟨line, source⟩, item⟩ : ∃ item, program.instructions[index]? = some item :=
      ⟨_, List.getElem?_eq_getElem (by omega)⟩
    obtain ⟨result, same, instruction⟩ := places index _ item
    obtain ⟨located, _, bytes⟩ := encodeInstruction_ok instruction
    rw [List.getElem?_eq_getElem inside, found] at same
    rw [Option.some.inj same]
    exact Instruction.encode_length bytes
  constructor
  · rw [flatten_length sizes, lengths]
  · intro index line source item
    obtain ⟨slot, found, instruction⟩ := places index _ item
    obtain ⟨located, place, bytes⟩ := encodeInstruction_ok instruction
    refine ⟨located, place, ?_⟩
    rw [flatten_slot sizes found]
    exact bytes

end Layout

end RegisterMachine
