/-
This file defines containers: a header and the sections of code, read-only data and data.
-/

import RegisterMachine.Container.Header
import RegisterMachine.Instruction.Codec

namespace RegisterMachine

structure Sections where
  code : List UInt8
  rodata : List UInt8
  data : List UInt8
  deriving DecidableEq, Repr

/-- A header together with the sections it describes. -/
structure Container extends Sections where
  header : Header
  deriving DecidableEq, Repr

namespace Container

/-- The sections stand behind the header in the order code, read-only data, data, and bytes
after them belong to none. -/
def split (header : Header) (bytes : List UInt8) : Except ContainerError Sections :=
  let expected := Header.byteSize + header.payloadLength
  if bytes.length < expected then .error (.truncated expected bytes.length)
  else
    let payload := bytes.drop Header.byteSize
    let afterCode := payload.drop header.codeLength.toNat
    .ok {
      code := payload.take header.codeLength.toNat
      rodata := afterCode.take header.rodataLength.toNat
      data := (afterCode.drop header.rodataLength.toNat).take header.dataLength.toNat }

def ofBytes (bytes : List UInt8) : Except ContainerError Container := do
  let header ← Header.ofBytes bytes
  let sections ← split header bytes
  return { sections with header }

/-- The lengths in the header are those of the sections. -/
def ofSections (sections : Sections) (entryPoint : UInt32) : Container :=
  { sections with
    header := {
      magic := Header.expectedMagic
      version := Header.supportedVersion
      codeLength := UInt32.ofNat sections.code.length
      entryPoint
      rodataLength := UInt32.ofNat sections.rodata.length
      dataLength := UInt32.ofNat sections.data.length } }

def toBytes (container : Container) : List UInt8 :=
  container.header.toBytes ++ container.code ++ container.rodata ++ container.data

/-- A partial slot at the end of the code counts for nothing. -/
def instructionCount (container : Container) : Nat :=
  container.code.length / Instruction.byteSize

/-- Rows of eight bytes, of which the last may be shorter. -/
def rows : List UInt8 → List (List UInt8)
  | b0 :: b1 :: b2 :: b3 :: b4 :: b5 :: b6 :: b7 :: rest =>
      [b0, b1, b2, b3, b4, b5, b6, b7] :: rows rest
  | [] => []
  | short => [short]

/-- Rows with the offsets at which they begin. -/
def offsetRows (bytes : List UInt8) : List (Nat × List UInt8) :=
  (rows bytes).mapIdx fun index row => (index * Instruction.byteSize, row)

/-- Every full slot of the code is decoded. -/
def instructions (container : Container) : List (Nat × Except DecodeError Instruction) :=
  (offsetRows container.code).filterMap fun (offset, row) =>
    (Instruction.decode? row).map fun decoded => (offset, decoded)

end Container

end RegisterMachine
