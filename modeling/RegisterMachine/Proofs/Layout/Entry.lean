/-
This file says where the execution of a program begins, from its lines alone, and proves that the
entry point of a layout is there.
-/

import RegisterMachine.Proofs.Layout.Alignment
import RegisterMachine.Proofs.Layout.Checks

namespace RegisterMachine

open Source

namespace Source

/-- Execution begins at the first instruction that stands behind the label of the start, or at the
first instruction of all if no line is a start. -/
inductive BeginsAt (lines : List Line) : Nat → Instruction → Prop
  | first {instruction : Instruction} (noStart : ∀ line ∈ lines, ¬line.isStart)
      (head : (instructionsOf lines).head? = some instruction) : BeginsAt lines 0 instruction
  | label {operands : Operands} {target : Symbol} {before after : List Line}
      {instruction : Instruction} (start : .directive .start operands ∈ lines)
      (named : operands.first = .symbol target) (bound : lines = before ++ .label target :: after)
      (head : (instructionsOf after).head? = some instruction) :
      BeginsAt lines (codeSize before) instruction

theorem instructionsOf_label (before after : List Line) (name : Symbol) :
    instructionsOf (before ++ .label name :: after) =
      instructionsOf before ++ instructionsOf after :=
  List.filterMap_append

/-- Execution begins at an instruction of the program, in the place of this instruction. -/
theorem BeginsAt.instruction {program : Program} {address : Nat} {source : Instruction}
    (begins : BeginsAt program.contents address source) :
    ∃ index line, program.instructions[index]? = some (line, source) ∧
      address = RegisterMachine.Instruction.byteSize * index := by
  have places : ∃ index, (instructionsOf program.contents)[index]? = some source ∧
      address = RegisterMachine.Instruction.byteSize * index := by
    cases begins with
    | first noStart head => exact ⟨0, by rw [← List.head?_eq_getElem?, head], rfl⟩
    | @label operands target before after _ start named bound head =>
        refine ⟨(instructionsOf before).length, ?_, codeSize_instructionsOf before⟩
        rw [bound, instructionsOf_label, List.getElem?_append_right (Nat.le_refl _), Nat.sub_self,
          ← List.head?_eq_getElem?, head]
  obtain ⟨index, found, position⟩ := places
  rw [program.instructionsOf_contents, List.getElem?_map] at found
  obtain ⟨⟨line, _⟩, item, rfl⟩ := Option.map_eq_some_iff.mp found
  exact ⟨index, line, item, position⟩

/-- A name is bound once, so its label stands in one place. -/
theorem label_unique {lines : List Line} {name : Symbol}
    (distinct : (lines.filterMap Line.binds?).Nodup) {before other after behind : List Line}
    (bound : lines = before ++ .label name :: after)
    (again : lines = other ++ .label name :: behind) : before = other ∧ after = behind := by
  have absent {front back : List Line} (split : lines = front ++ .label name :: back) :
      ∀ line ∈ front, (!line.isLabel name) = true := by
    intro line member
    rw [split, List.filterMap_append, List.nodup_append] at distinct
    cases line with
    | instruction content | directive directive operands => rfl
    | label known =>
        have early : known ∈ front.filterMap Line.binds? :=
          List.mem_filterMap.mpr ⟨_, member, rfl⟩
        have different := distinct.2.2 known early name (by simp [Line.binds?])
        simpa [Line.isLabel] using different.symm
  have front {front back : List Line} (split : lines = front ++ .label name :: back) :
      front = lines.takeWhile fun line => !line.isLabel name := by
    rw [split, List.takeWhile_append_of_pos (absent split), List.takeWhile_cons]
    simp [Line.isLabel]
  have same := (front bound).trans (front again).symm
  subst same
  rw [bound] at again
  exact ⟨rfl, (List.cons.inj (List.append_cancel_left again)).2⟩

/-- All starts of a program with at most one are the same. -/
theorem start_unique {lines : List Line} (oneStart : lines.countP Line.isStart ≤ 1)
    {first second : Operands} (one : .directive .start first ∈ lines)
    (two : .directive .start second ∈ lines) : first = second := by
  rw [List.countP_eq_length_filter] at oneStart
  have inFilter {operands : Operands} (member : .directive .start operands ∈ lines) :
      .directive .start operands ∈ lines.filter Line.isStart :=
    List.mem_filter.mpr ⟨member, rfl⟩
  have one := inFilter one
  have two := inFilter two
  cases starts : lines.filter Line.isStart with
  | nil =>
      rw [starts] at one
      cases one
  | cons start others =>
      rw [starts, List.length_cons] at oneStart
      have alone : others = [] := List.length_eq_zero_iff.mp (by omega)
      rw [starts, alone, List.mem_singleton] at one two
      exact (Line.directive.inj (one.trans two.symm)).2

/-- A program begins in one place. -/
theorem Program.Emittable.begins_unique {interner : Interner} {program : Program}
    (emittable : program.Emittable interner) {address other : Nat} {source another : Instruction}
    (begins : BeginsAt program.contents address source)
    (again : BeginsAt program.contents other another) : address = other ∧ source = another := by
  have distinct : (program.contents.filterMap Line.binds?).Nodup := by
    rw [Program.contents, List.filterMap_map]
    exact emittable.distinct
  cases begins with
  | first noStart head =>
      cases again with
      | first _ same =>
          rw [head] at same
          exact ⟨rfl, Option.some.inj same⟩
      | label start => exact absurd rfl (noStart _ start)
  | label start named bound head =>
      cases again with
      | first noStart => exact absurd rfl (noStart _ start)
      | label startAgain target boundAgain same =>
          rw [start_unique emittable.oneStart start startAgain, target] at named
          obtain rfl := Operand.symbol.inj named
          obtain ⟨rfl, rfl⟩ := label_unique distinct bound boundAgain
          rw [head] at same
          exact ⟨rfl, Option.some.inj same⟩

/-- A label whose address is in the code has an instruction behind it. -/
theorem labelAddress?_begins {lines : List Line} {name : Symbol} {address : UInt32}
    (fits : codeSize lines ≤ Segment.code.size.toNat)
    (found : labelAddress? lines name = some address)
    (inCode : address.toNat < codeSize lines) :
    ∃ before after instruction, lines = before ++ .label name :: after ∧
      address.toNat = codeSize before ∧ (instructionsOf after).head? = some instruction := by
  obtain ⟨offset, place, same⟩ := Option.map_eq_some_iff.mp found
  have within : offset ≤ codeSize lines := offset?_le place
  obtain ⟨before, line, after, split, isLabel, sum⟩ := offset?_split place
  have named : line = .label name := by
    cases line with
    | label other =>
        rw [Line.isLabel, decide_eq_true_iff] at isLabel
        rw [isLabel]
    | instruction content | directive directive operands => cases isLabel
  rw [named] at split
  have position : address.toNat = codeSize before := by
    rw [← same, base_add_offset (Nat.le_trans within fits) (by decide), sum]
    exact Nat.zero_add _
  cases behind : instructionsOf after with
  | cons instruction others =>
      exact ⟨before, after, instruction, split, position, by rw [behind, List.head?_cons]⟩
  | nil =>
      rw [position, split, codeSize_instructionsOf, codeSize_instructionsOf, instructionsOf_label,
        behind, List.append_nil] at inCode
      exact absurd inCode (Nat.lt_irrefl _)

end Source

namespace Layout

variable {interner : Interner} {program : Program} {layout : Layout}

theorem ofProgram_records (laid : ofProgram interner program = .ok layout) :
    Placement.Records interner program.toList layout.toPlacement := by
  obtain ⟨placed, _⟩ := ofProgram_stages laid
  exact Placement.addLines_records (Placement.empty_records interner) placed

/-- The entry point of a layout is where execution begins. -/
theorem ofProgram_begins (laid : ofProgram interner program = .ok layout)
    (nonempty : program.instructions ≠ []) :
    ∃ source, BeginsAt program.contents layout.entryPoint.toNat source := by
  have records := ofProgram_records laid
  obtain ⟨agrees, codeFits, rodataFits, dataFits⟩ := ofProgram_ok laid
  rw [agrees.codeLength] at codeFits
  rw [← Array.length_toList, agrees.constants.rodata] at rodataFits
  rw [← Array.length_toList, agrees.data] at dataFits
  rcases Placement.entryPoint_ok (ofProgram_entryPoint laid) with
    ⟨none, zero⟩ | ⟨target, number, given, bound, inCode⟩
  · have noStart : ∀ line ∈ program.contents, ¬line.isStart := by
      have started := records.started
      rw [none, Option.isSome_none, eq_comm, List.any_eq_false] at started
      rw [Program.contents, List.forall_mem_map]
      exact started
    rw [zero]
    cases instructions : instructionsOf program.contents with
    | nil =>
        rw [program.instructionsOf_contents, List.map_eq_nil_iff] at instructions
        exact absurd instructions nonempty
    | cons source others => exact ⟨source, .first noStart (by rw [instructions, List.head?_cons])⟩
  · rw [agrees.symbols] at bound
    rw [agrees.codeLength] at inCode
    have inSegment := Nat.lt_of_lt_of_le inCode codeFits
    have label := symbolAddress?_label rodataFits dataFits bound inSegment
    obtain ⟨before, after, source, split, position, head⟩ :=
      labelAddress?_begins codeFits label inCode
    rw [records.entry] at given
    obtain ⟨line, member, declares⟩ := List.mem_filterMap.mp (List.mem_of_mem_head? given)
    obtain ⟨operands, content, first, _⟩ := NumberedLine.namedBy?_eq_some.mp declares
    have start : .directive .start operands ∈ program.contents :=
      List.mem_map.mpr ⟨line, member, content⟩
    rw [position]
    exact ⟨source, .label start (Operand.name?_eq_some.mp first) split head⟩

end Layout

end RegisterMachine
