/-
This file compares programs whose lines stand in different orders. The lines that count in a
section must keep their order in it, and then all addresses stay.
-/

import RegisterMachine.Proofs.Layout.Existence
import RegisterMachine.Proofs.Layout.Location

namespace RegisterMachine

open Source

namespace Source

namespace Line

/-- Whether a line has a place in a section. An instruction with a string has a place in the code
and in the read-only data, and a line that only declares something has none. -/
def standsIn : Segment → Line → Bool
  | .code, .label _ | .code, .instruction _ => true
  | .data, .directive .data _ => true
  | .rodata, .directive .rodata _ => true
  | .rodata, .instruction content => content.operands.toList.any (·.text?.isSome)
  | _, _ => false

/-- A line that declares a name global. -/
def isGlobal : Line → Bool
  | .directive .global _ => true
  | _ => false

theorem codeSize_outside {line : Line} (outside : line.standsIn .code = false) :
    line.codeSize = 0 := by
  cases line with
  | label | directive => rfl
  | instruction => cases outside

theorem instruction?_outside {line : Line} (outside : line.standsIn .code = false) :
    line.instruction? = none := by
  cases line with
  | label | directive => rfl
  | instruction => cases outside

theorem isLabel_outside (name : Symbol) {line : Line} (outside : line.standsIn .code = false) :
    line.isLabel name = false := by
  cases line with
  | instruction | directive => rfl
  | label => cases outside

theorem dataBytes_outside (interner : Interner) {line : Line}
    (outside : line.standsIn .data = false) : line.dataBytes interner = [] := by
  cases line with
  | label | instruction => rfl
  | directive directive operands =>
      cases directive with
      | data => cases outside
      | start | global | rodata | unknown => rfl

theorem isDatum_outside (name : Symbol) {line : Line} (outside : line.standsIn .data = false) :
    line.isDatum name = false := by
  cases line with
  | label | instruction => rfl
  | directive directive operands =>
      cases directive with
      | data => cases outside
      | start | global | rodata | unknown => rfl

theorem constants_outside {line : Line} (outside : line.standsIn .rodata = false) :
    line.constants = [] := by
  cases line with
  | label => rfl
  | instruction content =>
      rw [standsIn, List.any_eq_false] at outside
      apply List.filterMap_eq_nil_iff.mpr
      intro operand member
      cases operand with
      | string text => exact absurd rfl (outside _ member)
      | register | integer | char | symbol | absent => rfl
  | directive directive operands =>
      cases directive with
      | rodata => cases outside
      | start | global | data | unknown => rfl

theorem eq_global {line : Line} (isGlobal : line.isGlobal) :
    ∃ operands, line = .directive .global operands := by
  cases line with
  | label | instruction => cases isGlobal
  | directive directive operands =>
      cases directive with
      | global => exact ⟨operands, rfl⟩
      | start | data | rodata | unknown => cases isGlobal

end Line

section Filtered

variable {α β : Type} {keeps : α → Bool}

/-- What is left out gives nothing. -/
theorem flatMap_filter {give : α → List β} (outside : ∀ item, keeps item = false → give item = [])
    (items : List α) : (items.filter keeps).flatMap give = items.flatMap give := by
  induction items with
  | nil => rfl
  | cons first rest inductionHypothesis =>
      cases kept : keeps first with
      | true =>
          rw [List.filter_cons_of_pos kept, List.flatMap_cons, List.flatMap_cons,
            inductionHypothesis]
      | false =>
          rw [List.filter_cons_of_neg (by simp [kept]), inductionHypothesis, List.flatMap_cons,
            outside first kept, List.nil_append]

theorem filterMap_filter {give : α → Option β}
    (outside : ∀ item, keeps item = false → give item = none) (items : List α) :
    (items.filter keeps).filterMap give = items.filterMap give := by
  rw [List.filterMap_filter]
  congr 1
  funext item
  split
  · rfl
  · rename_i dropped
    rw [outside item (Bool.eq_false_iff.mpr dropped)]

/-- What is left out takes no room and is not looked for. -/
theorem offset?_filter {size : α → Nat} {wanted : α → Bool}
    (outside : ∀ item, keeps item = false → size item = 0 ∧ wanted item = false)
    (items : List α) : offset? size wanted (items.filter keeps) = offset? size wanted items := by
  induction items with
  | nil => rfl
  | cons first rest inductionHypothesis =>
      cases kept : keeps first with
      | true =>
          rw [List.filter_cons_of_pos kept, offset?, offset?, inductionHypothesis]
      | false =>
          obtain ⟨empty, unwanted⟩ := outside first kept
          rw [List.filter_cons_of_neg (by simp [kept]), inductionHypothesis, offset?, unwanted,
            empty]
          simp

end Filtered

/-- Lines that have the same places as others. The global declarations may differ, but each of them
is one of the others. -/
structure Rearranges (others lines : List Line) : Prop where
  subset : others ⊆ lines
  kept : (others.filter (!·.isGlobal)).Perm (lines.filter (!·.isGlobal))
  ordered : ∀ segment, others.filter (Line.standsIn segment) = lines.filter (Line.standsIn segment)

namespace Rearranges

variable {interner : Interner} {others lines : List Line}

theorem instructionsOf (rearranges : Rearranges others lines) :
    instructionsOf others = instructionsOf lines := by
  have inCode (lines : List Line) : lines.filterMap Line.instruction? =
      (lines.filter (Line.standsIn .code)).filterMap Line.instruction? :=
    (filterMap_filter (fun _ => Line.instruction?_outside) lines).symm
  rw [Source.instructionsOf, Source.instructionsOf, inCode others, inCode lines,
    rearranges.ordered]

theorem codeSize (rearranges : Rearranges others lines) : codeSize others = codeSize lines := by
  rw [codeSize_instructionsOf, codeSize_instructionsOf, rearranges.instructionsOf]

theorem constants (rearranges : Rearranges others lines) :
    constants others = constants lines := by
  have inRodata (lines : List Line) : lines.flatMap Line.constants =
      (lines.filter (Line.standsIn .rodata)).flatMap Line.constants :=
    (flatMap_filter (fun _ => Line.constants_outside) lines).symm
  rw [Source.constants, Source.constants, inRodata others, inRodata lines, rearranges.ordered]

theorem data (rearranges : Rearranges others lines) :
    others.flatMap (Line.dataBytes interner) = lines.flatMap (Line.dataBytes interner) := by
  have inData (lines : List Line) : lines.flatMap (Line.dataBytes interner) =
      (lines.filter (Line.standsIn .data)).flatMap (Line.dataBytes interner) :=
    (flatMap_filter (fun _ => Line.dataBytes_outside interner) lines).symm
  rw [inData others, inData lines, rearranges.ordered]

theorem labelAddress? (rearranges : Rearranges others lines) (name : Symbol) :
    labelAddress? others name = labelAddress? lines name := by
  have inCode (lines : List Line) : offset? Line.codeSize (Line.isLabel name) lines =
      offset? Line.codeSize (Line.isLabel name) (lines.filter (Line.standsIn .code)) :=
    (offset?_filter (fun _ outside =>
      ⟨Line.codeSize_outside outside, Line.isLabel_outside name outside⟩) lines).symm
  rw [Source.labelAddress?, Source.labelAddress?, inCode others, inCode lines, rearranges.ordered]

theorem dataAddress? (rearranges : Rearranges others lines) (name : Symbol) :
    dataAddress? interner others name = dataAddress? interner lines name := by
  have inData (lines : List Line) :
      offset? (fun line => (line.dataBytes interner).length) (Line.isDatum name) lines =
        offset? (fun line => (line.dataBytes interner).length) (Line.isDatum name)
          (lines.filter (Line.standsIn .data)) :=
    (offset?_filter (fun line outside =>
      ⟨by rw [Line.dataBytes_outside interner outside]; rfl, line.isDatum_outside name outside⟩)
      lines).symm
  rw [Source.dataAddress?, Source.dataAddress?, inData others, inData lines, rearranges.ordered]

/-- Every name keeps its address. -/
theorem symbolAddress? (rearranges : Rearranges others lines) (name : Symbol) :
    symbolAddress? interner others name = symbolAddress? interner lines name := by
  rw [Source.symbolAddress?, Source.symbolAddress?, rearranges.labelAddress?,
    rearranges.dataAddress?, constantAddress?, constantAddress?, rearranges.constants]

/-- What the declarations of global names do not give comes from the same lines. -/
theorem perm_filterMap {β : Type} {give : Line → Option β}
    (outside : ∀ operands, give (.directive .global operands) = none)
    (rearranges : Rearranges others lines) :
    (others.filterMap give).Perm (lines.filterMap give) := by
  have declared (lines : List Line) :
      lines.filterMap give = (lines.filter (!·.isGlobal)).filterMap give := by
    refine (filterMap_filter (fun line dropped => ?_) lines).symm
    obtain ⟨operands, rfl⟩ := line.eq_global (by simpa using dropped)
    exact outside operands
  rw [declared others, declared lines]
  exact rearranges.kept.filterMap give

theorem oneStart (rearranges : Rearranges others lines) :
    others.countP Line.isStart = lines.countP Line.isStart := by
  have few : (others.filterMap (Option.guard Line.isStart)).Perm _ :=
    rearranges.perm_filterMap fun _ => rfl
  have counted (lines : List Line) :
      lines.countP Line.isStart = (lines.filterMap (Option.guard Line.isStart)).length := by
    rw [List.filterMap_eq_filter, List.countP_eq_length_filter]
  rw [counted, counted, few.length_eq]

theorem entryAddress (rearranges : Rearranges others lines)
    (oneStart : lines.countP Line.isStart ≤ 1) :
    entryAddress interner others = entryAddress interner lines := by
  have starts : (others.filterMap (Line.given? .start)).Perm _ :=
    rearranges.perm_filterMap fun _ => rfl
  have start : (others.filterMap (Line.given? .start)).head? =
      (lines.filterMap (Line.given? .start)).head? := by
    cases given : lines.filterMap (Line.given? .start) with
    | nil =>
        rw [given] at starts
        rw [starts.eq_nil]
    | cons target rest =>
        have fewer : others.countP Line.isStart ≤ 1 := rearranges.oneStart.symm ▸ oneStart
        rw [List.head?_cons]
        apply given_start fewer
        apply starts.mem_iff.mpr
        rw [given]
        exact List.mem_cons_self ..
  rw [Source.entryAddress, Source.entryAddress, start]
  congr 2
  funext name
  exact rearranges.symbolAddress? name

/-- Lines that have the same places as others have a layout if the others do. -/
theorem placeable (rearranges : Rearranges others lines) (placeable : Placeable interner lines) :
    Placeable interner others := by
  have binds : (others.filterMap Line.binds?).Perm _ := rearranges.perm_filterMap fun _ => rfl
  refine ⟨?_, ?_, ?_, ?_, ?_, ?_, ?_, ?_, ?_⟩
  · intro line member
    exact placeable.directed line (rearranges.subset member)
  · rw [rearranges.oneStart]
    exact placeable.oneStart
  · exact binds.nodup_iff.mpr placeable.distinct
  · intro line member
    exact placeable.texts line (rearranges.subset member)
  · rw [rearranges.codeSize]
    exact placeable.codeFits
  · rw [rearranges.constants]
    exact placeable.rodataFits
  · rw [rearranges.data]
    exact placeable.dataFits
  · intro name given
    obtain ⟨line, member, gives⟩ := List.mem_filterMap.mp given
    have declared := List.mem_filterMap.mpr ⟨line, rearranges.subset member, gives⟩
    exact binds.mem_iff.mpr (placeable.globals name declared)
  · intro target given
    obtain ⟨line, member, gives⟩ := List.mem_filterMap.mp given
    have starts := List.mem_filterMap.mpr ⟨line, rearranges.subset member, gives⟩
    obtain ⟨address, bound, inCode⟩ := placeable.entry target starts
    refine ⟨address, ?_, ?_⟩
    · rw [rearranges.symbolAddress?, bound]
    · rw [rearranges.codeSize]
      exact inCode

end Rearranges

end Source

namespace Layout

variable {interner : Interner} {program other : Program} {layout : Layout}

/-- Two layouts with the same addresses, sections and entry. -/
structure SamePlaces (moved layout : Layout) : Prop where
  symbols : ∀ name, moved.symbols.lookup name = layout.symbols.lookup name
  strings : ∀ text, moved.strings.lookup text = layout.strings.lookup text
  rodata : moved.rodata.toList = layout.rodata.toList
  data : moved.data.toList = layout.data.toList
  entryPoint : moved.entryPoint = layout.entryPoint

theorem SamePlaces.location? {moved : Layout} (same : moved.SamePlaces layout) :
    moved.location? = layout.location? := by
  funext takesAddress source
  cases source with
  | register | integer | char | absent => rfl
  | string text => rw [Layout.location?, Layout.location?, same.strings]
  | symbol name => rw [Layout.location?, Layout.location?, same.symbols]

/-- A program whose lines have the same places has a layout with the same places. -/
theorem ofProgram_rearranged (laid : ofProgram interner program = .ok layout)
    (rearranges : Rearranges other.contents program.contents) :
    ∃ moved, ofProgram interner other = .ok moved ∧ moved.SamePlaces layout := by
  have placeable := ofProgram_placeable laid
  obtain ⟨moved, laidOther⟩ := ofProgram_succeeds (rearranges.placeable placeable)
  have settled := ofProgram_settles laid
  have settledOther := ofProgram_settles laidOther
  refine ⟨moved, laidOther, ?_, ?_, ?_, ?_, ?_⟩
  · intro name
    rw [settledOther.agrees.symbols, settled.agrees.symbols, rearranges.symbolAddress?]
  · intro text
    rw [settledOther.agrees.constants.strings, settled.agrees.constants.strings,
      rearranges.constants]
  · rw [settledOther.agrees.constants.rodata, settled.agrees.constants.rodata,
      rearranges.constants]
  · rw [settledOther.agrees.data, settled.agrees.data, rearranges.data]
  · rw [settledOther.entryPoint, settled.entryPoint, rearranges.entryAddress placeable.oneStart]

end Layout

end RegisterMachine
