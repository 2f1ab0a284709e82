/-
This file proves that containers and their bytes determine each other. A container is read back
whatever bytes follow it, bytes are refused only if they end before the container does, and bytes
that are accepted begin with the layout of the container that is read from them.
-/

import RegisterMachine.Proofs.Machine.Loading

namespace RegisterMachine

/-- The number that bytes stand for, the least significant byte first. -/
def littleEndian : List UInt8 → Nat
  | [] => 0
  | byte :: rest => byte.toNat + 256 * littleEndian rest

theorem Word.littleEndian_toBytes (word : UInt32) : littleEndian (toBytes word) = word.toNat := by
  have bound := word.toNat_lt
  simp only [toBytes, littleEndian, UInt8.toNat_ofNat', Nat.shiftRight_eq_div_pow]
  omega

namespace Header

/-- The number in the bytes of a header from an offset on. -/
def field (bytes : List UInt8) (offset width : Nat) : Nat :=
  littleEndian ((bytes.drop offset).take width)

/-- A header that stands at the front of some bytes, field by field. -/
structure StandsIn (header : Header) (bytes : List UInt8) : Prop where
  magic : header.magic.toNat = field bytes 0 4
  version : header.version.toNat = field bytes 4 2
  codeLength : header.codeLength.toNat = field bytes 6 4
  entryPoint : header.entryPoint.toNat = field bytes 10 4
  rodataLength : header.rodataLength.toNat = field bytes 14 4
  dataLength : header.dataLength.toNat = field bytes 18 4

/-- The number of bytes that a container takes, from the lengths in its header. -/
def declaredLength (bytes : List UInt8) : Nat :=
  22 + field bytes 6 4 + field bytes 14 4 + field bytes 18 4

/-- A header is laid out with each field at its offset. -/
theorem toBytes_standsIn (header : Header) (rest : List UInt8) :
    header.StandsIn (header.toBytes ++ rest) where
  magic := (Word.littleEndian_toBytes header.magic).symm
  version := by
    have bound := header.version.toNat_lt
    change _ = littleEndian [UInt8.ofNat header.version.toNat,
      UInt8.ofNat (header.version.toNat >>> 8)]
    simp only [littleEndian, UInt8.toNat_ofNat', Nat.shiftRight_eq_div_pow]
    omega
  codeLength := (Word.littleEndian_toBytes header.codeLength).symm
  entryPoint := (Word.littleEndian_toBytes header.entryPoint).symm
  rodataLength := (Word.littleEndian_toBytes header.rodataLength).symm
  dataLength := (Word.littleEndian_toBytes header.dataLength).symm

theorem StandsIn.declaredLength_eq {header : Header} {bytes : List UInt8}
    (stands : header.StandsIn bytes) :
    declaredLength bytes = byteSize + header.payloadLength := by
  rw [declaredLength, payloadLength, ← stands.codeLength, ← stands.rodataLength,
    ← stands.dataLength, ← Nat.add_assoc, ← Nat.add_assoc]
  rfl

end Header

namespace Container

open Header (declaredLength)

theorem ofBytes_short {bytes : List UInt8} (few : bytes.length < Header.byteSize) :
    ofBytes bytes = .error (.truncated Header.byteSize bytes.length) := by
  rw [ofBytes, Header.ofBytes_short few]
  rfl

/-- Behind a header only the number of bytes counts. -/
theorem ofBytes_header (header : Header) (rest : List UInt8) :
    ofBytes (header.toBytes ++ rest) =
      (split header (header.toBytes ++ rest)).map fun sections => { sections with header } := by
  rw [ofBytes, Header.ofBytesToBytes, okBind]
  cases split header (header.toBytes ++ rest) <;> rfl

theorem split_error {header : Header} {bytes : List UInt8} {error : ContainerError} :
    split header bytes = .error error ↔
      bytes.length < Header.byteSize + header.payloadLength ∧
        error = .truncated (Header.byteSize + header.payloadLength) bytes.length := by
  unfold split
  dsimp only
  split
  · rename_i few
    rw [Except.error.injEq, and_iff_right few]
    exact eq_comm
  · rename_i enough
    exact iff_of_false nofun fun refused => enough refused.1

/-- The bytes of a truthful container are as many as its header says. -/
theorem Truthful.length {container : Container} (truthful : container.Truthful) :
    container.toBytes.length = Header.byteSize + container.header.payloadLength := by
  simp only [toBytes, List.length_append, Header.toBytesLength, truthful.code, truthful.rodata,
    truthful.data, Header.payloadLength]
  omega

/-- What is read behind a header is laid out as the bytes that it was read from. -/
theorem ofBytes_header_ok {header : Header} {rest : List UInt8} {container : Container}
    (read : ofBytes (header.toBytes ++ rest) = .ok container) :
    container.header = header ∧ container.Truthful ∧
      ∃ trailing, header.toBytes ++ rest = container.toBytes ++ trailing := by
  rw [ofBytes_header] at read
  cases found : split header (header.toBytes ++ rest) with
  | error reason =>
      rw [found] at read
      cases read
  | ok sections =>
      rw [found] at read
      cases read
      obtain ⟨code, rodata, data⟩ := split_ok found
      obtain ⟨trailing, behind⟩ := split_sections found
      refine ⟨rfl, ⟨code, rodata, data⟩, trailing, ?_⟩
      rw [behind]
      simp only [toBytes, List.append_assoc]

/-- A container is read back from its bytes, whatever follows them. Bytes are refused exactly if
they end in the header or before the end that the header declares, and otherwise they begin with
the layout of what is read from them. -/
theorem ofBytes_exact :
    (∀ container : Container, container.Truthful → ∀ trailing,
      ofBytes (container.toBytes ++ trailing) = .ok container) ∧
    ∀ bytes : List UInt8,
      (∀ error, ofBytes bytes = .error error ↔
        bytes.length < 22 ∧ error = .truncated 22 bytes.length ∨
        22 ≤ bytes.length ∧ bytes.length < declaredLength bytes ∧
          error = .truncated (declaredLength bytes) bytes.length) ∧
      ∀ container, ofBytes bytes = .ok container →
        container.header.StandsIn bytes ∧ container.Truthful ∧
          container.toBytes = bytes.take (declaredLength bytes) := by
  refine ⟨fun container truthful => ofBytes_toBytes truthful, fun bytes => ?_⟩
  by_cases few : bytes.length < Header.byteSize
  · have short : bytes.length < 22 := few
    rw [ofBytes_short few]
    refine ⟨fun error => ?_, nofun⟩
    rw [Except.error.injEq, or_iff_left fun long => Nat.not_le_of_lt short long.1,
      and_iff_right short]
    exact eq_comm
  · have long : 22 ≤ bytes.length := Nat.le_of_not_lt few
    obtain ⟨header, rest, rfl⟩ := Header.exists_toBytes_append bytes long
    have stands := header.toBytes_standsIn rest
    constructor
    · intro error
      rw [or_iff_right fun short => few short.1, and_iff_right long, stands.declaredLength_eq,
        ← split_error, ofBytes_header]
      cases split header (header.toBytes ++ rest) with
      | error reason => rw [Except.map, Except.error.injEq, Except.error.injEq]
      | ok sections => exact iff_of_false nofun nofun
    · intro container read
      obtain ⟨rfl, truthful, trailing, whole⟩ := ofBytes_header_ok read
      refine ⟨stands, truthful, ?_⟩
      rw [stands.declaredLength_eq, ← truthful.length, whole, List.take_left]

/-- A container with two bytes behind it is read, and without its last byte it is refused. -/
theorem ofBytes_exact_halt :
    let container := ofSections ⟨[0x06, 0, 0, 0, 0, 0, 0, 0], [], [7]⟩ 0
    container.Truthful ∧ ofBytes (container.toBytes ++ [1, 2]) = .ok container ∧
      container.toBytes = (container.toBytes ++ [1, 2]).take 31 ∧
      ofBytes (container.toBytes.take 30) = .error (.truncated 31 30) := by
  intro container
  have truthful : container.Truthful := ⟨rfl, rfl, rfl⟩
  obtain ⟨reads, exact⟩ := ofBytes_exact
  have read := reads container truthful [1, 2]
  have declared : declaredLength (container.toBytes ++ [1, 2]) = 31 := by decide
  have whole := ((exact _).2 container read).2.2
  rw [declared] at whole
  refine ⟨truthful, read, whole, ((exact _).1 _).mpr (.inr ?_)⟩
  exact ⟨by decide, by decide, by decide⟩

end Container

end RegisterMachine
