/-
This file reads the sections of a loaded container back from the image. What stands in a section is
found at its address by every machine that holds the container.
-/

import RegisterMachine.Proofs.Machine.Session

namespace RegisterMachine

namespace Memory

/-- A text that is stored with a zero is read up to its first zero. -/
theorem readText_stored {memory : Memory} {address : UInt32} {bytes : List UInt8}
    (stored : memory.bytesAt address.toNat bytes.length = bytes) (zero : 0 ∈ bytes)
    (inside : address.toNat + bytes.length ≤ imageSize) :
    memory.readText address = .ok (bytes.takeWhile (· ≠ 0), true) := by
  have nonempty := List.length_pos_of_mem zero
  obtain ⟨behind, size⟩ := Nat.exists_eq_add_of_le (Nat.le_sub_of_add_le' inside)
  have ends : (bytes.takeWhile (· ≠ 0)).length ≠ bytes.length := by
    intro whole
    have others := List.all_takeWhile (p := (· ≠ 0)) (l := bytes)
    rw [(List.takeWhile_prefix _).eq_of_length whole] at others
    exact absurd (List.all_eq_true.mp others 0 zero) (by decide)
  rw [readText_eq, if_pos (by omega), textAt_eq, size, bytesAt_append, stored,
    List.takeWhile_append, if_neg ends, decide_eq_true (List.mem_append_left _ zero)]

/-- A word that is stored is read. -/
theorem readWord_stored {memory : Memory} {address word : UInt32}
    (stored : memory.bytesAt address.toNat (Word.toBytes word).length = Word.toBytes word)
    (inside : address.toNat + (Word.toBytes word).length ≤ imageSize) :
    memory.readWord address = .ok word := by
  rw [readWord, read_eq, ← Word.toBytesLength word, if_pos inside, stored, okBind]
  exact congrArg Except.ok (Word.ofBytesToBytes word)

end Memory

/-- The section that a load copies to a segment. -/
def Sections.of (sections : Sections) : Segment → List UInt8
  | .code => sections.code
  | .rodata => sections.rodata
  | .data => sections.data
  | .heap | .stack => []

/-- A section of a loaded image is at the start of its segment. -/
theorem Sections.Fit.byteAt {sections : Sections} (fit : sections.Fit) {segment : Segment}
    {offset : Nat} (inside : offset < (sections.of segment).length) :
    segment.base.toNat + offset < Segment.heap.base.toNat ∧
      sections.byteAt (segment.base.toNat + offset) = (sections.of segment)[offset] := by
  have found : (sections.of segment).getD offset 0 = (sections.of segment)[offset] := by
    rw [List.getD_eq_getElem?_getD, List.getElem?_eq_getElem inside, Option.getD_some]
  have code : sections.code.length ≤ 0x80000 := fit.code
  have rodata : sections.rodata.length ≤ 0x40000 := fit.rodata
  have data : sections.data.length ≤ 0x40000 := fit.data
  rw [← found, Sections.byteAt, show Segment.rodata.base.toNat = 0x80000 from rfl,
    show Segment.data.base.toNat = 0xC0000 from rfl,
    show Segment.heap.base.toNat = 0x100000 from rfl]
  cases segment with
  | code =>
      have within : offset < sections.code.length := inside
      rw [show Segment.code.base.toNat = 0 from rfl, Nat.zero_add, if_pos (by omega)]
      exact ⟨by omega, rfl⟩
  | rodata =>
      have within : offset < sections.rodata.length := inside
      rw [show Segment.rodata.base.toNat = 0x80000 from rfl, if_neg (by omega),
        if_pos (by omega), Nat.add_sub_cancel_left]
      exact ⟨by omega, rfl⟩
  | data =>
      have within : offset < sections.data.length := inside
      rw [show Segment.data.base.toNat = 0xC0000 from rfl, if_neg (by omega),
        if_neg (by omega), if_pos (by omega), Nat.add_sub_cancel_left]
      exact ⟨by omega, rfl⟩
  | heap | stack => cases inside

/-- What a section holds is read back from every machine that holds the container. -/
theorem Machine.Intact.bytesAt_held {container : Container} {machine : Machine}
    (intact : Intact (some container) machine) {segment : Segment} {address : UInt32}
    {part : List UInt8} (held : segment.Holds (container.toSections.of segment) address part) :
    machine.memory.bytesAt address.toNat part.length = part ∧
      address.toNat + part.length ≤ imageSize := by
  obtain ⟨before, after, split, place⟩ := held
  have fit := (intact.loadable container rfl).fit
  have size : (container.toSections.of segment).length =
      before.length + (part.length + after.length) := by
    rw [split, List.length_append, List.length_append]
  have room : (container.toSections.of segment).length ≤ segment.size.toNat := by
    cases segment with
    | code => exact fit.code
    | rodata => exact fit.rodata
    | data => exact fit.data
    | heap | stack => exact Nat.zero_le _
  have inImage := Segment.inImage room
  refine ⟨?_, by omega⟩
  apply List.ext_getElem (Memory.bytesAt_length _ _ _)
  intro index _ inside
  have within : before.length + index < (container.toSections.of segment).length := by omega
  obtain ⟨below, found⟩ := fit.byteAt within
  simp only [Memory.bytesAt, List.getElem_map, List.getElem_range', Nat.one_mul]
  rw [place, Nat.add_assoc, intact.belowHeap _ below, heldByte, found,
    List.getElem_of_eq split, List.getElem_append_right (Nat.le_add_right _ _)]
  simp only [Nat.add_sub_cancel_left]
  exact List.getElem_append_left inside

end RegisterMachine
