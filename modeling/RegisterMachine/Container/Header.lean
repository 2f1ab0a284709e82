/-
This file defines the header that stands before the sections of a container.
-/

import RegisterMachine.Word

namespace RegisterMachine

/-- Why bytes are no container. -/
inductive ContainerError where
  | truncated (expected found : Nat)
  deriving DecidableEq, Repr

def ContainerError.message : ContainerError → String
  | truncated expected found =>
      s!"container truncated: expected at least {expected} bytes, found {found}"

/-- Lengths count bytes, and the entry point is an offset into the code. -/
structure Header where
  magic : UInt32
  version : UInt16
  codeLength : UInt32
  entryPoint : UInt32
  rodataLength : UInt32
  dataLength : UInt32
  deriving DecidableEq, Repr

namespace Header

/-- The letters BTVM. -/
def expectedMagic : UInt32 := Word.ofBytes 0x42 0x54 0x56 0x4D

/-- The one version that is accepted. -/
def supportedVersion : UInt16 := 1

/-- Number of bytes that a header takes. -/
def byteSize : Nat := 22

def hasExpectedMagic (header : Header) : Bool :=
  header.magic = expectedMagic

def hasSupportedVersion (header : Header) : Bool :=
  header.version = supportedVersion

/-- Number of bytes that must follow the header. -/
def payloadLength (header : Header) : Nat :=
  header.codeLength.toNat + header.rodataLength.toNat + header.dataLength.toNat

/-- The fields follow each other without padding. -/
def toBytes (header : Header) : List UInt8 :=
  Word.toBytes header.magic ++
    [UInt8.ofNat header.version.toNat, UInt8.ofNat (header.version.toNat >>> 8)] ++
    Word.toBytes header.codeLength ++ Word.toBytes header.entryPoint ++
    Word.toBytes header.rodataLength ++ Word.toBytes header.dataLength

/-- Bytes after the header are left alone. -/
def ofBytes : List UInt8 → Except ContainerError Header
  | m0 :: m1 :: m2 :: m3 :: v0 :: v1 :: c0 :: c1 :: c2 :: c3 :: e0 :: e1 :: e2 :: e3 ::
      r0 :: r1 :: r2 :: r3 :: d0 :: d1 :: d2 :: d3 :: _ =>
      .ok {
        magic := Word.ofBytes m0 m1 m2 m3
        version := UInt16.ofNat (v0.toNat + v1.toNat <<< 8)
        codeLength := Word.ofBytes c0 c1 c2 c3
        entryPoint := Word.ofBytes e0 e1 e2 e3
        rodataLength := Word.ofBytes r0 r1 r2 r3
        dataLength := Word.ofBytes d0 d1 d2 d3 }
  | bytes => .error (.truncated byteSize bytes.length)

@[simp] theorem toBytesLength (header : Header) : header.toBytes.length = byteSize := rfl

theorem ofBytesToBytes (header : Header) (rest : List UInt8) :
    ofBytes (header.toBytes ++ rest) = .ok header := by
  have versionBound := header.version.toNat_lt
  have version : UInt16.ofNat ((UInt8.ofNat header.version.toNat).toNat +
      (UInt8.ofNat (header.version.toNat >>> 8)).toNat <<< 8) = header.version := by
    simp only [← UInt16.toNat_inj, UInt16.toNat_ofNat', UInt8.toNat_ofNat']
    omega
  simp only [toBytes, Word.toBytes, List.cons_append, List.nil_append, ofBytes,
    Word.ofBytesToBytes, version]

end Header

end RegisterMachine
