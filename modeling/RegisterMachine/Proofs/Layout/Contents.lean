/-
This file says what the sections of a layout hold. A string operand leads to a copy of its text, and
a name that is bound once leads to its own value.
-/

import Mathlib.Data.List.Nodup
import RegisterMachine.Proofs.Layout.Alignment
import RegisterMachine.Proofs.Layout.Sizes
import RegisterMachine.Proofs.Machine.Image

namespace RegisterMachine.Source

/-- An item that is found stands in the section at its address. -/
theorem offset?_holds {α : Type} {bytes : α → List UInt8} {wanted : α → Bool} {items : List α}
    {offset : Nat} (segment : Segment)
    (fits : (items.flatMap bytes).length ≤ segment.size.toNat)
    (found : offset? (fun item => (bytes item).length) wanted items = some offset) :
    ∃ item ∈ items, wanted item ∧
      segment.Holds (items.flatMap bytes) (segment.base + UInt32.ofNat offset) (bytes item) := by
  have within := offset?_le found
  rw [← List.length_flatMap] at within
  have room : segment.base.toNat + segment.size.toNat < 0x100000000 := by
    cases segment <;> decide
  obtain ⟨before, item, after, split, isWanted, sum⟩ := offset?_split found
  refine ⟨item, ?_, isWanted, before.flatMap bytes, after.flatMap bytes, ?_, ?_⟩
  · rw [split]
    exact List.mem_append_right _ (List.mem_cons_self ..)
  · rw [split, List.flatMap_append, List.flatMap_cons]
  · rw [base_add_offset (Nat.le_trans within fits) room, sum, List.length_flatMap]

/-- Placing adds nothing but the constants to place. -/
theorem Constant.mem_foldl_place {constant : Constant} {constants placed : List Constant}
    (member : constant ∈ constants.foldl place placed) :
    constant ∈ placed ∨ constant ∈ constants := by
  induction constants generalizing placed with
  | nil => exact .inl member
  | cons first rest inductionHypothesis =>
      rw [List.mem_cons]
      rcases inductionHypothesis member with earlier | later
      · have added : constant ∈ placed ∨ constant = first := by
          cases first with
          | named name value => simpa [place] using earlier
          | literal text =>
              rw [place] at earlier
              split at earlier
              · exact .inl earlier
              · simpa using earlier
        exact added.imp_right .inl
      · exact .inr (.inr later)

theorem mem_constants {lines : List Line} {constant : Constant}
    (member : constant ∈ constants lines) : ∃ line ∈ lines, constant ∈ line.constants := by
  rcases Constant.mem_foldl_place member with none | mentioned
  · cases none
  · exact List.mem_flatMap.mp mentioned

/-- What the read-only data holds for a name is the value that a line gives to the name. -/
theorem Line.mem_constants_named {line : Line} {name : Symbol} {value : Operand}
    (member : .named name value ∈ line.constants) :
    line = .directive .rodata ⟨.symbol name, value⟩ := by
  cases line with
  | label other => cases member
  | instruction content =>
      obtain ⟨text, literal⟩ := literals_unnamed member
      cases literal
  | directive directive operands =>
      obtain ⟨first, second⟩ := operands
      cases directive <;> cases first <;> simp_all [constants]

/-- A name that some lines bind is bound by one of them. -/
theorem binds?_unique {lines : List Line} (distinct : (lines.filterMap Line.binds?).Nodup)
    {line other : Line} {name : Symbol} (member : line ∈ lines) (memberOther : other ∈ lines)
    (binds : line.binds? = some name) (bindsOther : other.binds? = some name) : line = other := by
  by_contra different
  have apart := List.pairwise_filterMap.mp distinct
  have symmetric : Std.Symm fun first second : Line =>
      ∀ bound, first.binds? = some bound → ∀ again, second.binds? = some again → bound ≠ again :=
    ⟨fun _ _ differ bound found again foundAgain => (differ again foundAgain bound found).symm⟩
  exact apart.forall member memberOther different name binds name bindsOther rfl

variable {interner : Interner} {lines : List Line}

/-- A copy of each string operand stands at its address. -/
theorem literalAddress?_holds {text : Symbol} {address : UInt32}
    (fits : ((constants lines).flatMap (Constant.bytes interner)).length ≤
      Segment.rodata.size.toNat)
    (found : literalAddress? interner lines text = some address) :
    Segment.rodata.Holds ((constants lines).flatMap (Constant.bytes interner)) address
      ((Operand.string text).bytes interner) := by
  obtain ⟨offset, place, rfl⟩ := Option.map_eq_some_iff.mp found
  obtain ⟨constant, _, wanted, holds⟩ := offset?_holds .rodata fits place
  cases constant with
  | named name value => cases wanted
  | literal other =>
      rw [of_decide_eq_true wanted]
      exact holds

/-- The value that a line gives to a name stands at an address of its section. -/
def Line.StandsAt (interner : Interner) (lines : List Line) (address : UInt32) : Line → Prop
  | .directive .data operands =>
      Segment.data.Holds (lines.flatMap (dataBytes interner)) address
        (operands.second.bytes interner)
  | .directive .rodata operands =>
      Segment.rodata.Holds ((Source.constants lines).flatMap (Constant.bytes interner)) address
        (operands.second.bytes interner)
  | .directive _ _ | .label _ | .instruction _ => True

/-- A name that is bound once leads to the value of the line that binds it. -/
theorem symbolAddress?_standsAt {name : Symbol} {address : UInt32} {line : Line}
    (distinct : (lines.filterMap Line.binds?).Nodup)
    (rodata : ((constants lines).flatMap (Constant.bytes interner)).length ≤
      Segment.rodata.size.toNat)
    (data : (lines.flatMap (Line.dataBytes interner)).length ≤ Segment.data.size.toNat)
    (found : symbolAddress? interner lines name = some address)
    (member : line ∈ lines) (binds : line.binds? = some name) :
    line.StandsAt interner lines address := by
  rw [symbolAddress?, Option.or_eq_some_iff, Option.or_eq_some_iff] at found
  rcases found with label | ⟨_, datum | ⟨_, constant⟩⟩
  · obtain ⟨offset, place, _⟩ := Option.map_eq_some_iff.mp label
    obtain ⟨before, other, after, split, wanted, _⟩ := offset?_split place
    have bound : other.binds? = some name := (other.binds?_eq_some name).mpr (.inl wanted)
    have inLines : other ∈ lines := by simp [split]
    rw [binds?_unique distinct member inLines binds bound]
    cases other with
    | label => trivial
    | instruction | directive => cases wanted
  · obtain ⟨offset, place, rfl⟩ := Option.map_eq_some_iff.mp datum
    obtain ⟨other, inLines, wanted, holds⟩ := offset?_holds .data data place
    have bound : other.binds? = some name := (other.binds?_eq_some name).mpr (.inr (.inl wanted))
    rw [binds?_unique distinct member inLines binds bound]
    cases other with
    | label | instruction => cases wanted
    | directive directive operands =>
        cases directive with
        | data => exact holds
        | start | global | rodata | unknown => cases wanted
  · obtain ⟨offset, place, rfl⟩ := Option.map_eq_some_iff.mp constant
    obtain ⟨placed, inConstants, wanted, holds⟩ := offset?_holds .rodata rodata place
    cases placed with
    | literal text => cases wanted
    | named other value =>
        obtain ⟨source, inLines, mentioned⟩ := mem_constants inConstants
        rw [Line.mem_constants_named mentioned] at inLines
        have bound : (Line.directive .rodata ⟨.symbol other, value⟩).binds? = some name :=
          congrArg some (of_decide_eq_true wanted).symm
        rw [binds?_unique distinct member inLines binds bound]
        exact holds

end RegisterMachine.Source

namespace RegisterMachine.Layout

open Source

variable {interner : Interner} {program : Program} {layout : Layout}

theorem rodata_eq (laid : Layout.ofProgram interner program = .ok layout) :
    layout.rodata.toList = (constants program.contents).flatMap (Constant.bytes interner) ∧
      ((constants program.contents).flatMap (Constant.bytes interner)).length ≤
        Segment.rodata.size.toNat := by
  obtain ⟨agrees, _, fits, _⟩ := Layout.ofProgram_ok laid
  refine ⟨agrees.constants.rodata, ?_⟩
  rw [← agrees.constants.rodata, Array.length_toList]
  exact fits

theorem data_eq (laid : Layout.ofProgram interner program = .ok layout) :
    layout.data.toList = program.contents.flatMap (Line.dataBytes interner) ∧
      (program.contents.flatMap (Line.dataBytes interner)).length ≤ Segment.data.size.toNat := by
  obtain ⟨agrees, _, _, fits⟩ := Layout.ofProgram_ok laid
  refine ⟨agrees.data, ?_⟩
  rw [← agrees.data, Array.length_toList]
  exact fits

end RegisterMachine.Layout
