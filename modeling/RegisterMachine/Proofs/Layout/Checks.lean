/-
This file proves that the addresses of a program whose lines were placed are settled unless a check
of the whole program fails, and that the checks come in the order of its faults.
-/

import RegisterMachine.Proofs.Layout.FirstFault

namespace RegisterMachine

open Source

namespace Placement

variable {interner : Interner} {program : Program} {placement : Placement}

theorem Records.codeLength (records : Records interner program.toList placement) :
    placement.codeLength = program.codeSize := by
  have agrees : Agrees interner program.contents placement := records.agrees
  rw [agrees.codeLength, program.codeSize_contents]
  rfl

theorem sectionSizes_eq (records : Records interner program.toList placement) :
    placement.sectionSizes = program.sections interner := by
  have agrees : Agrees interner program.contents placement := records.agrees
  have rodata : placement.rodata.size = rodataSize interner program.contents := by
    rw [← Array.length_toList, agrees.constants.rodata, constants_size]
  have data : placement.data.size = dataSize interner program.contents := by
    rw [← Array.length_toList, agrees.data, List.length_flatMap, dataSize]
  rw [sectionSizes, records.codeLength, rodata, data, Program.sections]

/-- The first section that is too large is reported. -/
theorem checkCapacity_fails (records : Records interner program.toList placement) :
    FailsFirst (program.overflows interner) (placement.checkCapacity.mapError .raised) := by
  have same (entry : Segment × Nat) : decide (entry.1.size.toNat < entry.2) =
      (if entry.1.size.toNat < entry.2 then some (EmitError.sectionOverflow entry.1 entry.2)
        else none).isSome := by
    by_cases large : entry.1.size.toNat < entry.2
    · simp [large]
    · simp [large]
  unfold checkCapacity
  rw [sectionSizes_eq records]
  split
  · rename_i segment size found
    have large : segment.size.toNat < size := by simpa using List.find?_some found
    exact .of_found same found (if_pos large)
  · rename_i clear
    exact .of_clear same clear ()

/-- The names of directives have texts. -/
theorem namedBy_known (known : ∀ line ∈ program.toList, Known interner line.content.names)
    {directive : Directive} {name : Symbol} {number : Nat}
    (named : (name, number) ∈ namedBy directive program.toList) : interner.Knows name := by
  obtain ⟨line, member, declares⟩ := List.mem_filterMap.mp named
  obtain ⟨operands, content, first, _⟩ := NumberedLine.namedBy?_eq_some.mp declares
  apply known line member name
  rw [content, Line.names, Operands.names, Operand.name?_eq_some.mp first]
  exact List.mem_cons_self ..

theorem undefined?_isSome (line : Nat) (name : Symbol) :
    (program.undefined? interner line name).isSome =
      !decide (name ∈ boundNames program.toList) := by
  unfold Program.undefined?
  by_cases bound : name ∈ boundNames program.toList
  · simp [bound]
  · simp [bound]

/-- The first global name that is not defined is reported. -/
theorem checkGlobals_fails (records : Records interner program.toList placement)
    (known : ∀ line ∈ program.toList, Known interner line.content.names) :
    FailsFirst (program.undefinedGlobals interner) (placement.checkGlobals interner) := by
  have same (entry : Symbol × Nat) : (!placement.symbols.contains entry.1) =
      (program.undefined? interner entry.2 entry.1).isSome := by
    rw [records.contains, undefined?_isSome]
  have search := records.globals fun name => !placement.symbols.contains name
  unfold checkGlobals
  split
  · rename_i name line found
    have first := search.symm.trans found
    have knows := namedBy_known known (List.mem_of_find?_eq_some first)
    have unbound : name ∉ boundNames program.toList := by
      simpa [records.contains] using List.find?_some first
    rw [raise_textOf knows (.undefinedSymbol line)]
    exact .of_found same first (if_neg unbound)
  · rename_i clear
    exact .of_clear same (search.symm.trans clear) ()

/-- Clean lines give at most one entry point. -/
theorem namedBy_start_length {lines : List NumberedLine} (clean : Clean lines) :
    (namedBy .start lines).length ≤ 1 := by
  rw [namedBy, List.length_filterMap_eq_countP]
  apply Nat.le_trans _ clean.oneStart
  apply List.countP_mono_left
  intro line _ starts
  obtain ⟨⟨target, number⟩, named⟩ := Option.isSome_iff_exists.mp starts
  obtain ⟨operands, content, _⟩ := NumberedLine.namedBy?_eq_some.mp named
  rw [content, Line.isStart]

/-- An address below the end of the code is in the segment of the code. -/
theorem contains_code {address : UInt32} {codeLength : Nat}
    (fits : codeLength ≤ Segment.code.size.toNat) :
    (Segment.code.contains address ∧ (address - Segment.code.base).toNat < codeLength) ↔
      address.toNat < codeLength := by
  have zero : address - Segment.code.base = address := UInt32.sub_zero address
  rw [zero, and_iff_right_iff_imp]
  intro below
  have inCode : address.toNat < Segment.code.limit.toNat := Nat.lt_of_lt_of_le below fits
  rw [Segment.contains, Bool.and_eq_true, decide_eq_true_iff, decide_eq_true_iff]
  exact ⟨UInt32.le_iff_toNat_le.mpr (Nat.zero_le _), UInt32.lt_iff_toNat_lt.mpr inCode⟩

/-- The entry point is checked last. -/
theorem entryPoint_fails (records : Records interner program.toList placement)
    (known : ∀ line ∈ program.toList, Known interner line.content.names)
    (clean : Clean program.toList)
    (fits : program.codeSize ≤ Segment.code.size.toNat) :
    FailsFirst (program.misplacedStarts interner) (placement.entryPoint interner) := by
  have agrees : Agrees interner program.contents placement := records.agrees
  have few := namedBy_start_length clean
  unfold entryPoint Program.misplacedStarts
  rw [records.entry]
  cases starts : namedBy .start program.toList with
  | nil => exact .done 0
  | cons given others =>
      obtain ⟨target, line⟩ := given
      have knows : interner.Knows target :=
        namedBy_known known (starts ▸ List.mem_cons_self ..)
      have alone : others = [] := by
        rw [starts, List.length_cons] at few
        exact List.length_eq_zero_iff.mp (by omega)
      rw [alone, List.head?_cons]
      simp only [Program.misplaced?, agrees.symbols, List.filterMap_cons, List.filterMap_nil]
      cases symbolAddress? interner program.contents target with
      | none =>
          dsimp only
          rw [raise_textOf knows (.undefinedSymbol line)]
          exact .raised _ []
      | some address =>
          dsimp only
          rw [records.codeLength]
          by_cases below : address.toNat < program.codeSize
          · rw [if_pos below, if_pos ((contains_code fits).mpr below)]
            exact .done _
          · rw [if_neg below, if_neg (mt (contains_code fits).mp below),
              raise_textOf knows (.invalidEntry line)]
            exact .raised _ []

end Placement

namespace Layout

/-- Addresses are settled unless something is wrong, and what is wrong first is raised. -/
theorem ofProgram_fails {interner : Interner} {program : Program}
    (known : ∀ line ∈ program.toList, Known interner line.content.names) :
    FailsFirst
      (lineFaults interner [] program.toList ++ (program.overflows interner ++
        (program.undefinedGlobals interner ++ program.misplacedStarts interner)))
      (ofProgram interner program) := by
  have begun := Placement.empty_records interner
  have lines := Placement.addLines_fails begun known
  apply lines.bind
  intro placement placed
  have records := Placement.addLines_records begun placed
  rw [placed] at lines
  have clean := (lineFaults_eq_nil interner clean_nil).mp lines.eq_nil
  have capacity := Placement.checkCapacity_fails records
  apply capacity.bind
  intro _ checked
  have fits := (Placement.checkCapacity_ok (mapErrorOk checked)).1
  rw [records.codeLength] at fits
  apply (Placement.checkGlobals_fails records known).bind
  intro _ _
  rw [← List.append_nil (program.misplacedStarts interner)]
  apply (Placement.entryPoint_fails records known clean fits).bind
  intro entryPoint _
  exact .done _

end Layout

end RegisterMachine
