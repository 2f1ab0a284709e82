/-
This file defines the memory image. A byte that was written is read back until the next write to
its position, and `byteAtSetByte` is that law.
-/

import RegisterMachine.Defect
import RegisterMachine.Machine.ByteTree
import RegisterMachine.Machine.Error
import RegisterMachine.Word

namespace RegisterMachine

/-- The least depth at which a tree has a byte for each position of the image. -/
def Memory.depth : Nat := 6

/-- The bytes of the image. -/
structure Memory where
  bytes : ByteTree Memory.depth

namespace Memory

/-- The image after it is cleared. -/
def zero : Memory := ⟨ByteTree.zero depth⟩

/-- The image is described by its size, which never changes. -/
def description : String :=
  s!"Memory \x7b len: {imageSize} \x7d"

/-- There are zeros beyond the image. -/
def byteAt (memory : Memory) (position : Nat) : UInt8 :=
  if position < imageSize then memory.bytes.get depth position else 0

/-- Nothing is kept beyond the image. -/
def setByte (memory : Memory) (position : Nat) (byte : UInt8) : Memory :=
  if position < imageSize then ⟨memory.bytes.set depth position byte⟩ else memory

def setBytes (memory : Memory) (position : Nat) : List UInt8 → Memory
  | [] => memory
  | byte :: rest => setBytes (memory.setByte position byte) (position + 1) rest

@[simp] theorem byteAtZero (position : Nat) : zero.byteAt position = 0 := by
  simp [zero, byteAt]

theorem imageSizeLeCapacity : imageSize ≤ ByteTree.capacity depth := by
  decide

theorem byteAtSetByte (memory : Memory) (position other : Nat) (byte : UInt8) :
    (memory.setByte position byte).byteAt other =
      if position = other ∧ position < imageSize then byte else memory.byteAt other := by
  have enough := imageSizeLeCapacity
  by_cases inside : position < imageSize
  · by_cases otherInside : other < imageSize
    · have low : position % ByteTree.capacity depth = position := Nat.mod_eq_of_lt (by omega)
      have otherLow : other % ByteTree.capacity depth = other := Nat.mod_eq_of_lt (by omega)
      simp [setByte, byteAt, inside, otherInside, ByteTree.getSet, low, otherLow]
    · have apart : position ≠ other := by omega
      simp [byteAt, otherInside, apart]
  · simp [setByte, inside]

/-- The bytes of a range with others behind them; the last byte of the range is taken first. -/
def bytesBefore (memory : Memory) (position : Nat) : (length : Nat) → List UInt8 → List UInt8
  | 0, behind => behind
  | length + 1, behind =>
      bytesBefore memory position length (memory.byteAt (position + length) :: behind)

theorem bytesBeforeEqMap (memory : Memory) (position length : Nat) (behind : List UInt8) :
    memory.bytesBefore position length behind =
      (List.range' position length).map memory.byteAt ++ behind := by
  induction length generalizing behind with
  | zero => rfl
  | succ length inductionHypothesis =>
      simp [bytesBefore, inductionHypothesis, List.range'_concat]

/-- A range is read only inside the image. -/
def slice (memory : Memory) (position length : Nat) : Except Defect (List UInt8) :=
  if position + length ≤ imageSize then .ok (memory.bytesBefore position length [])
  else .error .imageRange

/-- A range is written only inside the image. -/
def overwrite (memory : Memory) (position : Nat) (bytes : List UInt8) : Except Defect Memory :=
  if position + bytes.length ≤ imageSize then .ok (memory.setBytes position bytes)
  else .error .imageRange

/-- An address from which as many bytes as asked for are inside the image. -/
def check (address : UInt32) (length : Nat) : Except (Abort RuntimeError) UInt32 :=
  if address.toNat + length ≤ imageSize then .ok address
  else .error (.raised (.memoryOutOfBounds address))

def read (memory : Memory) (address : UInt32) (length : Nat) :
    Except (Abort RuntimeError) (List UInt8) := do
  let address ← check address length
  Abort.lift (memory.slice address.toNat length)

def write (memory : Memory) (address : UInt32) (bytes : List UInt8) :
    Except (Abort RuntimeError) Memory := do
  let address ← check address bytes.length
  Abort.lift (memory.overwrite address.toNat bytes)

def readByte (memory : Memory) (address : UInt32) : Except (Abort RuntimeError) UInt8 := do
  match ← memory.read address 1 with
  | [byte] => return byte
  | _ => throw (.defect .imageRange)

def writeByte (memory : Memory) (address : UInt32) (byte : UInt8) :
    Except (Abort RuntimeError) Memory :=
  memory.write address [byte]

/-- The least significant byte of a word comes first. -/
def readWord (memory : Memory) (address : UInt32) : Except (Abort RuntimeError) UInt32 := do
  match ← memory.read address 4 with
  | [first, second, third, fourth] => return Word.ofBytes first second third fourth
  | _ => throw (.defect .imageRange)

def writeWord (memory : Memory) (address : UInt32) (word : UInt32) :
    Except (Abort RuntimeError) Memory :=
  memory.write address (Word.toBytes word)

/-- Bytes up to the next zero among the given number of bytes, and whether there is one; the
bytes before the position come in reverse. -/
def untilZero (memory : Memory) (position : Nat) (before : List UInt8) :
    (remaining : Nat) → List UInt8 × Bool
  | 0 => (before.reverse, false)
  | remaining + 1 =>
      let byte := memory.byteAt position
      if byte = 0 then (before.reverse, true)
      else untilZero memory (position + 1) (byte :: before) remaining

/-- The text at an address ends before the next zero; the flag is false if the image ends first. -/
def readText (memory : Memory) (address : UInt32) :
    Except (Abort RuntimeError) (List UInt8 × Bool) := do
  let address ← check address 1
  return memory.untilZero address.toNat [] (imageSize - address.toNat)

end Memory

end RegisterMachine
