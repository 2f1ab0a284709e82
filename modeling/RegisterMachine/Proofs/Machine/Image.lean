/-
This file describes the machine that a load leaves behind. The checks on a header are exactly
what makes its sections fit their segments, so a container that is accepted is always loaded.
-/

import Mathlib.Data.List.GetD
import RegisterMachine.Machine.Load
import RegisterMachine.Proofs.Machine.Memory

namespace RegisterMachine

namespace Segment

theorem base_add_size (segment : Segment) :
    segment.base.toNat + segment.size.toNat = segment.limit.toNat := by
  cases segment <;> rfl

theorem limit_le_imageSize (segment : Segment) : segment.limit.toNat ≤ imageSize := by
  cases segment <;> decide

/-- Bytes that fit a segment are inside the image. -/
theorem inImage {segment : Segment} {length : Nat} (fits : length ≤ segment.size.toNat) :
    segment.base.toNat + length ≤ imageSize := by
  have segmentEnd := segment.base_add_size
  have imageEnd := segment.limit_le_imageSize
  omega

/-- A part of a section has an address in the segment of the section. -/
def Holds (segment : Segment) (bytes : List UInt8) (address : UInt32) (part : List UInt8) : Prop :=
  ∃ before after, bytes = before ++ (part ++ after) ∧
    address.toNat = segment.base.toNat + before.length

end Segment

/-- Sections that fit their segments. -/
structure Sections.Fit (sections : Sections) : Prop where
  code : sections.code.length ≤ Segment.code.size.toNat
  rodata : sections.rodata.length ≤ Segment.rodata.size.toNat
  data : sections.data.length ≤ Segment.data.size.toNat

/-- The byte that a loaded image has at a position: a byte of the section whose segment holds the
position, or zero past the end of the section. -/
def Sections.byteAt (sections : Sections) (position : Nat) : UInt8 :=
  if position < Segment.rodata.base.toNat then sections.code.getD position 0
  else if position < Segment.data.base.toNat then
    sections.rodata.getD (position - Segment.rodata.base.toNat) 0
  else if position < Segment.heap.base.toNat then
    sections.data.getD (position - Segment.data.base.toNat) 0
  else 0

/-- A container whose header tells the truth and passes the checks. -/
structure Container.Loadable (container : Container) : Prop where
  version : container.header.hasSupportedVersion
  nonempty : container.header.codeLength ≠ 0
  codeLength : container.code.length = container.header.codeLength.toNat
  rodataLength : container.rodata.length = container.header.rodataLength.toNat
  dataLength : container.data.length = container.header.dataLength.toNat
  fit : container.toSections.Fit

theorem Memory.byteAt_setBytes_getD (memory : Memory) (position other : Nat) (bytes : List UInt8)
    (fits : position + bytes.length ≤ imageSize) :
    (memory.setBytes position bytes).byteAt other =
      if position ≤ other ∧ other < position + bytes.length then bytes.getD (other - position) 0
      else memory.byteAt other := by
  rw [byteAt_setBytes memory position other bytes fits]
  by_cases inside : position ≤ other ∧ other < position + bytes.length
  · have within : other - position < bytes.length := by omega
    rw [dif_pos inside, if_pos inside, List.getD_eq_getElem?_getD,
      List.getElem?_eq_getElem within, Option.getD_some]
  · rw [dif_neg inside, if_neg inside]

namespace LoadError

/-- The checks pass exactly for a supported version and lengths that fit. -/
theorem checkHeader_ok {header : Header} :
    checkHeader header = .ok () ↔
      header.hasSupportedVersion ∧ header.codeLength ≠ 0 ∧
        header.codeLength ≤ Segment.code.size ∧ header.dataLength ≤ Segment.data.size ∧
        header.rodataLength ≤ Segment.rodata.size := by
  unfold checkHeader
  simp only [← UInt32.not_lt]
  split
  · simp_all
  split
  · simp_all
  split
  · simp_all
  split
  · simp_all
  split
  · simp_all
  · simp_all

end LoadError

namespace Container

/-- The sections of a split have the lengths of the header. -/
theorem split_ok {header : Header} {bytes : List UInt8} {sections : Sections}
    (found : split header bytes = .ok sections) :
    sections.code.length = header.codeLength.toNat ∧
      sections.rodata.length = header.rodataLength.toNat ∧
      sections.data.length = header.dataLength.toNat := by
  unfold split at found
  dsimp only at found
  split at found
  · cases found
  · rename_i enough
    cases found
    simp only [Header.payloadLength, Nat.not_lt] at enough
    simp only [List.length_take, List.length_drop]
    omega

/-- Containers that a machine accepts can be loaded. -/
theorem ofLoadable_ok {bytes : List UInt8} {container : Container}
    (accepted : (ofLoadable bytes).value = .ok container) : container.Loadable := by
  unfold ofLoadable at accepted
  cases read : Header.ofBytes bytes with
  | error reason =>
      rw [read] at accepted
      cases accepted
  | ok header =>
      rw [read] at accepted
      dsimp only at accepted
      obtain ⟨_, checked, accepted⟩ := bindOk accepted
      obtain ⟨sections, found, returned⟩ := bindOk accepted
      rw [← Except.ok.inj returned]
      obtain ⟨version, nonempty, code, data, rodata⟩ := LoadError.checkHeader_ok.mp checked
      obtain ⟨codeLength, rodataLength, dataLength⟩ := split_ok (mapErrorOk found)
      refine ⟨version, nonempty, codeLength, rodataLength, dataLength, ⟨?_, ?_, ?_⟩⟩
      · rw [codeLength]
        exact UInt32.le_iff_toNat_le.mp code
      · rw [rodataLength]
        exact UInt32.le_iff_toNat_le.mp rodata
      · rw [dataLength]
        exact UInt32.le_iff_toNat_le.mp data

end Container

namespace Machine

/-- The image with each section at the start of its segment. -/
def imageOf (sections : Sections) : Memory :=
  ((Memory.zero.setBytes Segment.code.base.toNat sections.code).setBytes
    Segment.rodata.base.toNat sections.rodata).setBytes Segment.data.base.toNat sections.data

/-- A loaded image has the bytes of the sections and zeros elsewhere. -/
theorem imageOf_byteAt {sections : Sections} (fit : sections.Fit) (position : Nat) :
    (imageOf sections).byteAt position = sections.byteAt position := by
  have codeEnd : sections.code.length ≤ Segment.rodata.base.toNat := fit.code
  have rodataEnd : Segment.rodata.base.toNat + sections.rodata.length ≤
      Segment.data.base.toNat := by
    have bound := fit.rodata
    have size := Segment.rodata.base_add_size
    have limit : Segment.rodata.limit.toNat = Segment.data.base.toNat := rfl
    omega
  have dataEnd : Segment.data.base.toNat + sections.data.length ≤ Segment.heap.base.toNat := by
    have bound := fit.data
    have size := Segment.data.base_add_size
    have limit : Segment.data.limit.toNat = Segment.heap.base.toNat := rfl
    omega
  rw [imageOf, Memory.byteAt_setBytes_getD _ _ _ _ (Segment.inImage fit.data),
    Memory.byteAt_setBytes_getD _ _ _ _ (Segment.inImage fit.rodata),
    Memory.byteAt_setBytes_getD _ _ _ _ (Segment.inImage fit.code), Memory.byteAtZero,
    Sections.byteAt]
  rw [show Segment.code.base.toNat = 0 from rfl]
  rw [show Segment.rodata.base.toNat = 0x80000 from rfl] at codeEnd rodataEnd ⊢
  rw [show Segment.data.base.toNat = 0xC0000 from rfl] at rodataEnd dataEnd ⊢
  rw [show Segment.heap.base.toNat = 0x100000 from rfl] at dataEnd ⊢
  -- In each segment only the writes of its own section reach the position.
  by_cases inCode : position < 0x80000
  · rw [if_neg (by omega), if_neg (by omega), if_pos inCode]
    by_cases within : position < sections.code.length
    · rw [if_pos (by omega), Nat.sub_zero]
    · rw [if_neg (by omega), List.getD_eq_default _ _ (by omega)]
  · rw [if_neg inCode]
    by_cases inRodata : position < 0xC0000
    · rw [if_neg (by omega), if_pos inRodata]
      by_cases within : position < 0x80000 + sections.rodata.length
      · rw [if_pos (by omega)]
      · rw [if_neg (by omega), if_neg (by omega), List.getD_eq_default _ _ (by omega)]
    · rw [if_neg inRodata, if_neg (c := 0x80000 ≤ position ∧ _) (by omega),
        if_neg (c := 0 ≤ position ∧ _) (by omega)]
      by_cases inData : position < 0x100000
      · rw [if_pos inData]
        by_cases within : position < 0xC0000 + sections.data.length
        · rw [if_pos (by omega)]
        · rw [if_neg (by omega), List.getD_eq_default _ _ (by omega)]
      · rw [if_neg (by omega), if_neg inData]

/-- The machine about to execute a container. -/
def started (machine : Machine) (container : Container) : Machine :=
  { empty machine.fuelLimit with
    memory := imageOf container.toSections
    pc := Segment.code.base + container.header.entryPoint
    codeEnd := Segment.code.base + container.header.codeLength }

/-- Sections that fit are copied one by one. -/
theorem copySections_cons (machine : Machine) {segment : Segment} {bytes : List UInt8}
    (fits : bytes.length ≤ segment.size.toNat) (rest : List (Segment × List UInt8)) :
    machine.copySections ((segment, bytes) :: rest) =
      { machine with memory := machine.memory.setBytes segment.base.toNat bytes }.copySections
        rest := by
  rw [copySections, Memory.write_eq, if_pos (Segment.inImage fits)]

/-- Nothing is left of the machine before but the limit on its fuel. -/
theorem install_eq (machine : Machine) {container : Container}
    (fit : container.toSections.Fit) :
    machine.install container = ⟨machine.started container, .ok ()⟩ := by
  unfold install
  rw [copySections_cons _ fit.code, copySections_cons _ fit.rodata, copySections_cons _ fit.data]
  rfl

/-- A load that is refused leaves the machine alone, and every container that is accepted is
installed. -/
theorem loading_eq (machine : Machine) (bytes : List UInt8) :
    (machine.loading bytes).value =
      match (Container.ofLoadable bytes).value with
      | .ok container => ⟨machine.started container, .ok ()⟩
      | .error reason => ⟨machine, .error (.raised (.invalidBytecode reason))⟩ := by
  unfold loading
  cases accepted : (Container.ofLoadable bytes).value with
  | error reason =>
      dsimp only
      rw [accepted]
  | ok container =>
      dsimp only
      rw [accepted]
      exact machine.install_eq (Container.ofLoadable_ok accepted).fit

/-- A load starts exactly the containers that are accepted. -/
theorem load_eq (machine : Machine) (bytes : List UInt8) :
    (machine.load bytes).value =
      match (Container.ofLoadable bytes).value with
      | .ok container => .ok (machine.started container)
      | .error reason => .error (.raised (.invalidBytecode reason)) := by
  unfold load
  dsimp only
  rw [machine.loading_eq bytes]
  cases (Container.ofLoadable bytes).value with
  | error reason => rfl
  | ok container => rfl

end Machine

end RegisterMachine
