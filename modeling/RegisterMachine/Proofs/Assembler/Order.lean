/-
This file says what of a container depends on the order of the lines and on the declarations of
global names. Lines of different sections can be interleaved in any way, and a declaration only
marks the instructions that refer to its name.
-/

import RegisterMachine.Proofs.Assembler.Decoding
import RegisterMachine.Proofs.Layout.Rearrangement

namespace RegisterMachine

open Source

namespace Slot

/-- A slot without its mark. -/
def unmarked (slot : Slot) : Slot :=
  { slot with flags := slot.flags &&& 0x7F }

theorem packFlags_unmarked {global sourceImmediate : Bool} {destBits srcBits : Nat}
    (destBound : destBits < 8) (srcBound : srcBits < 8) :
    packFlags global destBits srcBits sourceImmediate &&& 0x7F =
      packFlags false destBits srcBits sourceImmediate := by
  have globalBound := global.toNat_le
  have flagBound := sourceImmediate.toNat_le
  apply UInt8.toNat_inj.mp
  rw [UInt8.toNat_and, packFlags_toNat destBound srcBound, packFlags_toNat destBound srcBound,
    show (0x7F : UInt8).toNat = 2 ^ 7 - 1 from rfl, Nat.and_two_pow_sub_one_eq_mod,
    Bool.toNat_false]
  omega

end Slot

/-- Code without the marks of its instructions. A mark is the highest bit of the last byte of a
slot. -/
def unmarked (code : List UInt8) : List UInt8 :=
  code.mapIdx fun index byte =>
    if index % Instruction.byteSize = 7 then byte &&& 0x7F else byte

theorem unmarked_slot (slot : Slot) : unmarked slot.toBytes = slot.unmarked.toBytes :=
  rfl

/-- The marks are taken from each slot by itself. -/
theorem unmarked_append {slot : List UInt8} (whole : slot.length = Instruction.byteSize)
    (rest : List UInt8) : unmarked (slot ++ rest) = unmarked slot ++ unmarked rest := by
  rw [unmarked, List.mapIdx_append, whole]
  simp only [Nat.add_mod_right]
  rfl

namespace Instruction

/-- An instruction that refers to no global name differs from one that does in its mark alone. -/
theorem encode_unmarked {instruction : Instruction} {bytes : List UInt8}
    (encoded : instruction.encode = .ok bytes) :
    { instruction with global := false }.encode = .ok (unmarked bytes) := by
  unfold encode at encoded
  cases found : instruction.toSlot with
  | error reason =>
      rw [found] at encoded
      cases encoded
  | ok slot =>
      rw [found] at encoded
      cases encoded
      obtain ⟨unused, immediate, shared, fields⟩ := toSlot_ok found
      have bare : { instruction with global := false }.toSlot = .ok slot.unmarked := by
        refine (if_pos unused).trans ?_
        change (instruction.sharedImmediate >>= _) = _
        rw [shared, okBind, Slot.unmarked, fields,
          Slot.packFlags_unmarked instruction.dest.mode.bits_lt instruction.src.mode.bits_lt]
        rfl
      rw [encode, bare, unmarked_slot]
      rfl

end Instruction

namespace Layout

/-- Without global names the code loses its marks and nothing else. -/
theorem fills_unmarked {layout moved : Layout} (places : moved.SamePlaces layout)
    (noGlobals : ∀ name, moved.isGlobal name = false) {source : Source.Instruction}
    {slot : List UInt8} (fills : layout.Fills source slot) :
    moved.Fills source (unmarked slot) := by
  obtain ⟨located, found, encoded⟩ := fills
  refine ⟨{ located with global := false }, ?_, Instruction.encode_unmarked encoded⟩
  obtain ⟨dest, destFound, found⟩ := Option.bind_eq_some_iff.mp found
  obtain ⟨src, srcFound, same⟩ := Option.map_eq_some_iff.mp found
  have unmentioned : source.references.any moved.isGlobal = false := by
    simp [noGlobals]
  rw [located?, places.location?, destFound, Option.bind_some, srcFound, Option.map_some,
    unmentioned, ← same]

theorem Fills.length {layout : Layout} {source : Source.Instruction} {slot : List UInt8}
    (fills : layout.Fills source slot) : slot.length = Instruction.byteSize := by
  obtain ⟨_, _, encoded⟩ := fills
  exact Instruction.encode_length encoded

theorem code_unmarked {layout moved : Layout} (places : moved.SamePlaces layout)
    (noGlobals : ∀ name, moved.isGlobal name = false) {sources : List Source.Instruction}
    {slots : List (List UInt8)} (fills : List.Forall₂ layout.Fills sources slots) :
    ∃ bare, List.Forall₂ moved.Fills sources bare ∧ bare.flatten = unmarked slots.flatten := by
  induction fills with
  | nil => exact ⟨[], .nil, rfl⟩
  | cons first others inductionHypothesis =>
      obtain ⟨bare, rest, flat⟩ := inductionHypothesis
      refine ⟨_, .cons (fills_unmarked places noGlobals first) rest, ?_⟩
      rw [List.flatten_cons, List.flatten_cons, flat, unmarked_append first.length]

end Layout

namespace Source.Program

variable {interner : Interner} {program other : Program} {container : Container}

/-- Programs with the same lines in each section, in the same order, have the same container. -/
theorem emit_reordered (emitted : (program.emit interner).value = .ok container)
    (permuted : other.contents.Perm program.contents)
    (ordered : ∀ segment, other.contents.filter (Line.standsIn segment) =
      program.contents.filter (Line.standsIn segment)) :
    (other.emit interner).value = .ok container := by
  obtain ⟨layout, code, laid, encoded, same⟩ := emit_ok emitted
  have rearranges : Rearranges other.contents program.contents :=
    ⟨permuted.subset, permuted.filter _, ordered⟩
  obtain ⟨moved, laidOther, places⟩ := Layout.ofProgram_rearranged laid rearranges
  have globals : moved.isGlobal = layout.isGlobal := by
    funext name
    rw [(Layout.ofProgram_settles laidOther).isGlobal, (Layout.ofProgram_settles laid).isGlobal]
    exact decide_eq_decide.mpr (permuted.filterMap _).mem_iff
  have fills : moved.Fills = layout.Fills := by
    funext source bytes
    rw [Layout.Fills, Layout.Fills, Layout.located?, Layout.located?, places.location?, globals]
  have encodedOther : moved.code interner other = .ok code := by
    rw [Layout.code_ok_iff] at encoded ⊢
    rw [fills, rearranges.instructionsOf]
    exact encoded
  rw [emit_value, laidOther, okBind, encodedOther, okBind, same, places.rodata, places.data,
    places.entryPoint]

/-- The declarations and the data can stand behind the code that needs them. -/
theorem emit_reordered_codeFirst :
    ∃ program interner container, ∃ other : Program,
      (read 10 ".DATA n, 5\n.START go\n.RODATA text, \"hi\"\ngo: print_str text").value =
          .ok (program, interner) ∧
        (program.emit interner).value = .ok container ∧
        other.contents = program.contents.drop 3 ++ program.contents.take 3 ∧
        (other.emit interner).value = .ok container := by
  have accepted : (read 10 ".DATA n, 5\n.START go\n.RODATA text, \"hi\"\ngo: print_str text"
      ).value.toOption.any fun parsed =>
        decide (∀ segment ∈ Segment.all,
          (parsed.1.contents.drop 3 ++ parsed.1.contents.take 3).filter (Line.standsIn segment) =
            parsed.1.contents.filter (Line.standsIn segment)) &&
          (parsed.1.emit parsed.2).value.toOption.any fun _ => true := by
    decide +kernel
  obtain ⟨⟨program, interner⟩, parsed, accepted⟩ := exists_ok accepted
  obtain ⟨ordered, accepted⟩ := Bool.and_eq_true_iff.mp accepted
  obtain ⟨container, emitted, _⟩ := exists_ok accepted
  let lines := program.toList.drop 3 ++ program.toList.take 3
  let other : Program := ⟨lines.toArray, lines.length, le_refl _⟩
  have contents : other.contents = program.contents.drop 3 ++ program.contents.take 3 := by
    change lines.map NumberedLine.content = _
    rw [List.map_append, List.map_drop, List.map_take, Program.contents]
  refine ⟨program, interner, container, other, parsed, emitted, contents, ?_⟩
  apply emit_reordered emitted
  · rw [contents]
    exact List.perm_append_comm.trans (.of_eq (List.take_append_drop 3 _))
  · intro segment
    rw [contents]
    exact of_decide_eq_true ordered segment (by cases segment <;> decide)

/-- An instruction is marked exactly if it refers to a name that some line declares. -/
theorem emitted_marks {layout : Layout} {code : List UInt8}
    (laid : Layout.ofProgram interner program = .ok layout)
    (encoded : layout.code interner program = .ok code) {index line : Nat}
    {source : Source.Instruction} (item : program.instructions[index]? = some (line, source)) :
    ∃ flags, code[8 * index + 7]? = some flags ∧
      (flags.toNat.testBit 7 ↔ ∃ name ∈ source.references, ∃ operands,
        .directive .global operands ∈ program.contents ∧ operands.first = .symbol name) := by
  obtain ⟨_, slots⟩ := Layout.code_slots encoded
  obtain ⟨located, lowered, bytes⟩ := slots index line source item
  obtain ⟨flags, last, marked, _⟩ := Instruction.encode_flags bytes
  have whole := Instruction.encode_length bytes
  rw [List.getLast?_eq_getElem?, whole] at last
  refine ⟨flags, ?_, ?_⟩
  · rw [← last, List.getElem?_take_of_lt (by decide), List.getElem?_drop]
    rfl
  · have global : located.global = source.references.any layout.isGlobal := by
      obtain ⟨dest, _, found⟩ :=
        Option.bind_eq_some_iff.mp (Layout.instruction_ok_iff.mp lowered)
      obtain ⟨src, _, same⟩ := Option.map_eq_some_iff.mp found
      rw [← same]
    have highest : flags.toNat.testBit 7 = decide (flags.toNat / 0x80 = 1) := by
      have bound := flags.toNat_lt
      rw [Nat.testBit_eq_decide_div_mod_eq]
      exact decide_eq_decide.mpr (by omega)
    rw [highest, marked, global, List.any_eq_true]
    simp only [Layout.isGlobal_iff (Layout.ofProgram_records laid)]

/-- Without its declarations of global names a program has the same container but for the marks of
its instructions, and those are on the instructions that refer to a declared name. -/
theorem emit_withoutGlobals (emitted : (program.emit interner).value = .ok container)
    (stripped : other.contents = program.contents.filter (!·.isGlobal)) :
    (other.emit interner).value = .ok { container with code := unmarked container.code } ∧
      ∀ index line source, program.instructions[index]? = some (line, source) →
        ∃ flags, container.code[8 * index + 7]? = some flags ∧
          (flags.toNat.testBit 7 ↔ ∃ name ∈ source.references, ∃ operands,
            .directive .global operands ∈ program.contents ∧ operands.first = .symbol name) := by
  obtain ⟨layout, code, laid, encoded, rfl⟩ := emit_ok emitted
  refine ⟨?_, fun index line source item => emitted_marks laid encoded item⟩
  have rearranges : Rearranges other.contents program.contents := by
    rw [stripped]
    refine ⟨List.filter_sublist.subset, ?_, fun segment => ?_⟩
    · rw [List.filter_filter]
      simp only [Bool.and_self, List.Perm.refl]
    · rw [List.filter_filter]
      congr 1
      funext line
      cases global : line.isGlobal with
      | false => rw [Bool.not_false, Bool.and_true]
      | true =>
          obtain ⟨operands, rfl⟩ := line.eq_global global
          cases segment <;> rfl
  obtain ⟨moved, laidOther, places⟩ := Layout.ofProgram_rearranged laid rearranges
  have noGlobals (name : Symbol) : moved.isGlobal name = false := by
    rw [(Layout.ofProgram_settles laidOther).isGlobal, decide_eq_false_iff_not, stripped,
      List.mem_filterMap]
    rintro ⟨line, member, given⟩
    obtain ⟨operands, rfl, _⟩ := Line.given?_eq_some.mp given
    cases (List.mem_filter.mp member).2
  obtain ⟨slots, fills, flat⟩ := Layout.code_ok_iff.mp encoded
  obtain ⟨bare, fillsBare, flatBare⟩ := Layout.code_unmarked places noGlobals fills
  have encodedOther : moved.code interner other = .ok (unmarked code) := by
    rw [← rearranges.instructionsOf] at fillsBare
    exact Layout.code_ok_iff.mpr ⟨bare, fillsBare, by rw [flatBare, flat]⟩
  rw [emit_value, laidOther, okBind, encodedOther, okBind, places.rodata, places.data,
    places.entryPoint, Container.ofSections, Container.ofSections, unmarked, List.length_mapIdx]

/-- The jump is marked for its label, and the instruction behind the label is not. -/
theorem emit_withoutGlobals_jump :
    ∃ program interner container, ∃ other : Program,
      (read 10 ".GLOBAL far\njmp far\nfar: halt").value = .ok (program, interner) ∧
        (program.emit interner).value = .ok container ∧
        other.contents = program.contents.filter (!·.isGlobal) ∧
        (other.emit interner).value = .ok { container with code := unmarked container.code } ∧
        unmarked container.code ≠ container.code := by
  have accepted : (read 10 ".GLOBAL far\njmp far\nfar: halt").value.toOption.any fun parsed =>
      (parsed.1.emit parsed.2).value.toOption.any fun container =>
        decide (unmarked container.code ≠ container.code) := by
    decide +kernel
  obtain ⟨⟨program, interner⟩, parsed, accepted⟩ := exists_ok accepted
  obtain ⟨container, emitted, marked⟩ := exists_ok accepted
  let lines := program.toList.filter (!·.content.isGlobal)
  let other : Program := ⟨lines.toArray, lines.length, le_refl _⟩
  have stripped : other.contents = program.contents.filter (!·.isGlobal) := by
    rw [Program.contents, Program.contents, List.filter_map]
    rfl
  exact ⟨program, interner, container, other, parsed, emitted, stripped,
    (emit_withoutGlobals emitted stripped).1, of_decide_eq_true marked⟩

end Source.Program

end RegisterMachine
