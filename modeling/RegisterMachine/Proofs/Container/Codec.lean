/-
This file proves that a container is read back from the bytes it was laid out as, and that the
loader accepts what it reads back.
-/

import RegisterMachine.Proofs.Machine.Image

namespace RegisterMachine.Container

/-- A header whose lengths are those of the sections. -/
structure Truthful (container : Container) : Prop where
  code : container.code.length = container.header.codeLength.toNat
  rodata : container.rodata.length = container.header.rodataLength.toNat
  data : container.data.length = container.header.dataLength.toNat

/-- The sections are cut out at the lengths of the header. -/
theorem split_toBytes {container : Container} (truthful : container.Truthful)
    (rest : List UInt8) :
    split container.header (container.toBytes ++ rest) = .ok container.toSections := by
  obtain ⟨code, rodata, data⟩ := truthful
  have payload : (container.toBytes ++ rest).drop Header.byteSize =
      container.code ++ (container.rodata ++ (container.data ++ rest)) := by
    rw [toBytes, List.append_assoc, List.append_assoc, List.append_assoc,
      ← Header.toBytesLength container.header, List.drop_left]
  have enough : ¬(container.toBytes ++ rest).length <
      Header.byteSize + container.header.payloadLength := by
    simp only [toBytes, List.length_append, Header.toBytesLength, Header.payloadLength, code,
      rodata, data]
    omega
  unfold split
  dsimp only
  rw [if_neg enough, payload, ← code, ← rodata, ← data, List.take_left, List.drop_left,
    List.take_left, List.drop_left, List.take_left]

theorem ofBytes_toBytes {container : Container} (truthful : container.Truthful)
    (rest : List UInt8) : ofBytes (container.toBytes ++ rest) = .ok container := by
  have header : Header.ofBytes (container.toBytes ++ rest) = .ok container.header := by
    rw [toBytes, List.append_assoc, List.append_assoc, List.append_assoc]
    exact Header.ofBytesToBytes _ _
  rw [ofBytes, header, okBind, split_toBytes truthful, okBind]
  rfl

theorem Loadable.truthful {container : Container} (loadable : container.Loadable) :
    container.Truthful :=
  ⟨loadable.codeLength, loadable.rodataLength, loadable.dataLength⟩

/-- A container that can be loaded is accepted from its bytes. -/
theorem ofLoadable_toBytes {container : Container} (loadable : container.Loadable) :
    (ofLoadable container.toBytes).value = .ok container := by
  have header : Header.ofBytes container.toBytes = .ok container.header := by
    rw [toBytes, List.append_assoc, List.append_assoc]
    exact Header.ofBytesToBytes _ _
  have sections := split_toBytes loadable.truthful []
  rw [List.append_nil] at sections
  have accepted : LoadError.checkHeader container.header = .ok () := by
    apply LoadError.checkHeader_ok.mpr
    refine ⟨loadable.version, loadable.nonempty, ?_, ?_, ?_⟩
    · rw [UInt32.le_iff_toNat_le, ← loadable.codeLength]
      exact loadable.fit.code
    · rw [UInt32.le_iff_toNat_le, ← loadable.dataLength]
      exact loadable.fit.data
    · rw [UInt32.le_iff_toNat_le, ← loadable.rodataLength]
      exact loadable.fit.rodata
  unfold ofLoadable
  rw [header]
  dsimp only
  rw [accepted, okBind, sections]
  rfl

/-- The header of sections that fit their segments holds their lengths. -/
theorem ofSections_truthful {sections : Sections} (entryPoint : UInt32) (fit : sections.Fit) :
    (ofSections sections entryPoint).Truthful := by
  have kept {segment : Segment} {length : Nat} (fits : length ≤ segment.size.toNat) :
      length = (UInt32.ofNat length).toNat := by
    have bound := segment.size.toNat_lt
    rw [UInt32.toNat_ofNat', Nat.mod_eq_of_lt (by omega)]
  exact ⟨kept fit.code, kept fit.rodata, kept fit.data⟩

/-- The container of sections that fit their segments can be loaded if there is code. -/
theorem ofSections_loadable {sections : Sections} (entryPoint : UInt32) (fit : sections.Fit)
    (nonempty : sections.code ≠ []) : (ofSections sections entryPoint).Loadable := by
  obtain ⟨code, rodata, data⟩ := ofSections_truthful entryPoint fit
  refine ⟨rfl, ?_, code, rodata, data, fit⟩
  intro zero
  apply nonempty
  apply List.eq_nil_of_length_eq_zero
  change sections.code.length = _ at code
  rw [code]
  exact congrArg UInt32.toNat zero

end RegisterMachine.Container
