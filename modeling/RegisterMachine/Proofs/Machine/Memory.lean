/-
This file describes the memory image by its bytes. Every access is settled by one comparison of
its end with the size of the image.
-/

import RegisterMachine.Machine.Memory

namespace RegisterMachine.Memory

/-- The word that four consecutive bytes of the image spell. -/
def wordAt (memory : Memory) (position : Nat) : UInt32 :=
  Word.ofBytes (memory.byteAt position) (memory.byteAt (position + 1))
    (memory.byteAt (position + 2)) (memory.byteAt (position + 3))

/-- The bytes of a range of the image. -/
def bytesAt (memory : Memory) (position length : Nat) : List UInt8 :=
  (List.range' position length).map memory.byteAt

@[simp] theorem bytesAt_length (memory : Memory) (position length : Nat) :
    (memory.bytesAt position length).length = length := by
  simp [bytesAt]

theorem bytesAt_append (memory : Memory) (position first second : Nat) :
    memory.bytesAt position (first + second) =
      memory.bytesAt position first ++ memory.bytesAt (position + first) second := by
  rw [bytesAt, bytesAt, bytesAt, ← List.map_append, List.range'_append_1]

theorem bytesAt_succ (memory : Memory) (position length : Nat) :
    memory.bytesAt position (length + 1) =
      memory.byteAt position :: memory.bytesAt (position + 1) length := by
  rw [Nat.add_comm, bytesAt_append]
  rfl

/-- A stored list is read back inside its range, and other bytes of the image stay. -/
theorem byteAt_setBytes (memory : Memory) (position other : Nat) (bytes : List UInt8)
    (fits : position + bytes.length ≤ imageSize) :
    (memory.setBytes position bytes).byteAt other =
      if inside : position ≤ other ∧ other < position + bytes.length then
        bytes[other - position]
      else memory.byteAt other := by
  induction bytes generalizing memory position with
  | nil =>
      have outside : ¬(position ≤ other ∧ other < position + ([] : List UInt8).length) := by
        simp only [List.length_nil]
        omega
      rw [dif_neg outside]
      rfl
  | cons byte rest inductionHypothesis =>
      simp only [List.length_cons] at fits
      rw [setBytes, inductionHypothesis _ (position + 1) (by omega)]
      by_cases later : position + 1 ≤ other ∧ other < position + 1 + rest.length
      · have inside : position ≤ other ∧ other < position + (byte :: rest).length := by
          simp only [List.length_cons]
          omega
        have shifted : other - position = other - (position + 1) + 1 := by omega
        rw [dif_pos later, dif_pos inside]
        simp only [shifted, List.getElem_cons_succ]
      · rw [dif_neg later, byteAtSetByte]
        by_cases first : position = other
        · subst first
          have room : position < imageSize := by omega
          simp [room]
        · have outside : ¬(position ≤ other ∧ other < position + (byte :: rest).length) := by
            simp only [List.length_cons]
            omega
          rw [if_neg (fun both => first both.1), dif_neg outside]

theorem setBytes_append (memory : Memory) (position : Nat) (first second : List UInt8) :
    memory.setBytes position (first ++ second) =
      (memory.setBytes position first).setBytes (position + first.length) second := by
  induction first generalizing memory position with
  | nil => rfl
  | cons byte rest inductionHypothesis =>
      rw [List.cons_append, setBytes, setBytes, inductionHypothesis, List.length_cons,
        Nat.add_assoc, Nat.add_comm 1]

theorem byteAt_setBytes_outside (memory : Memory) (position other : Nat) (bytes : List UInt8)
    (fits : position + bytes.length ≤ imageSize)
    (outside : other < position ∨ position + bytes.length ≤ other) :
    (memory.setBytes position bytes).byteAt other = memory.byteAt other := by
  rw [byteAt_setBytes memory position other bytes fits, dif_neg (by omega)]

theorem byteAt_setBytes_inside (memory : Memory) (position offset : Nat) (bytes : List UInt8)
    (fits : position + bytes.length ≤ imageSize) (inside : offset < bytes.length) :
    (memory.setBytes position bytes).byteAt (position + offset) = bytes[offset] := by
  rw [byteAt_setBytes memory position _ bytes fits, dif_pos (by omega)]
  simp

/-- A range whose bytes are left alone is read as before. -/
theorem bytesAt_congr {before after : Memory} {position length : Nat}
    (same : ∀ other, other < position + length → after.byteAt other = before.byteAt other) :
    after.bytesAt position length = before.bytesAt position length := by
  apply List.map_congr_left
  intro other member
  exact same other (List.mem_range'_1.mp member).2

/-- Bytes that were written to a range are read back from it. -/
theorem bytesAt_setBytes (memory : Memory) {position : Nat} {bytes : List UInt8}
    (fits : position + bytes.length ≤ imageSize) :
    (memory.setBytes position bytes).bytesAt position bytes.length = bytes := by
  apply List.ext_getElem (bytesAt_length _ _ _)
  intro index _ inside
  simp only [bytesAt, List.getElem_map, List.getElem_range', Nat.one_mul]
  exact memory.byteAt_setBytes_inside position index bytes fits inside

/-- A word is read back from the place where it was stored. -/
theorem wordAt_setBytes (memory : Memory) (position : Nat) (word : UInt32)
    (fits : position + 4 ≤ imageSize) :
    (memory.setBytes position (Word.toBytes word)).wordAt position = word := by
  have stored (offset : Nat) (inside : offset < 4) :=
    memory.byteAt_setBytes_inside position offset (Word.toBytes word) fits inside
  have first := stored 0 (by decide)
  rw [Nat.add_zero] at first
  rw [wordAt, first, stored 1 (by decide), stored 2 (by decide), stored 3 (by decide)]
  exact Word.ofBytesToBytes word

/-- A check succeeds exactly for ranges inside the image. -/
theorem check_eq (address : UInt32) (length : Nat) :
    check address length =
      if address.toNat + length ≤ imageSize then .ok address
      else .error (.raised (.memoryOutOfBounds address)) := rfl

theorem read_eq (memory : Memory) (address : UInt32) (length : Nat) :
    memory.read address length =
      if address.toNat + length ≤ imageSize then .ok (memory.bytesAt address.toNat length)
      else .error (.raised (.memoryOutOfBounds address)) := by
  by_cases inside : address.toNat + length ≤ imageSize
  · simp only [read, check, slice, if_pos inside, okBind, Abort.liftOk, bytesBeforeEqMap,
      List.append_nil]
    rfl
  · simp only [read, check, if_neg inside, errorBind]

theorem write_eq (memory : Memory) (address : UInt32) (bytes : List UInt8) :
    memory.write address bytes =
      if address.toNat + bytes.length ≤ imageSize then .ok (memory.setBytes address.toNat bytes)
      else .error (.raised (.memoryOutOfBounds address)) := by
  by_cases inside : address.toNat + bytes.length ≤ imageSize
  · simp only [write, check, overwrite, if_pos inside, okBind, Abort.liftOk]
  · simp only [write, check, if_neg inside, errorBind]

theorem readWord_eq (memory : Memory) (address : UInt32) :
    memory.readWord address =
      if address.toNat + 4 ≤ imageSize then .ok (memory.wordAt address.toNat)
      else .error (.raised (.memoryOutOfBounds address)) := by
  rw [readWord, read_eq]
  by_cases inside : address.toNat + 4 ≤ imageSize
  · rw [if_pos inside, if_pos inside]
    rfl
  · rw [if_neg inside, if_neg inside]
    rfl

theorem writeWord_eq (memory : Memory) (address word : UInt32) :
    memory.writeWord address word =
      if address.toNat + 4 ≤ imageSize then
        .ok (memory.setBytes address.toNat (Word.toBytes word))
      else .error (.raised (.memoryOutOfBounds address)) := by
  rw [writeWord, write_eq, Word.toBytesLength]

/-- A search for a zero takes the bytes before the first one, or all of them. -/
theorem untilZero_eq (memory : Memory) (position remaining : Nat) (before : List UInt8) :
    memory.untilZero position before remaining =
      (before.reverse ++ (memory.bytesAt position remaining).takeWhile (· ≠ 0),
        decide (0 ∈ memory.bytesAt position remaining)) := by
  induction remaining generalizing position before with
  | zero => rw [untilZero, bytesAt, List.range'_zero, List.map_nil, List.takeWhile_nil,
      List.append_nil, decide_eq_false List.not_mem_nil]
  | succ remaining inductionHypothesis =>
      rw [untilZero, bytesAt_succ]
      by_cases ends : memory.byteAt position = 0
      · simp [ends]
      · simp [ends, inductionHypothesis, Ne.symm ends]

/-- The text at an address inside the image, and whether a zero ends it. -/
def textAt (memory : Memory) (position : Nat) : List UInt8 × Bool :=
  memory.untilZero position [] (imageSize - position)

theorem textAt_eq (memory : Memory) (position : Nat) :
    memory.textAt position =
      ((memory.bytesAt position (imageSize - position)).takeWhile (· ≠ 0),
        decide (0 ∈ memory.bytesAt position (imageSize - position))) := by
  rw [textAt, untilZero_eq, List.reverse_nil, List.nil_append]

/-- The bytes from a position on up to the next zero, or to the end of the image. -/
def textFrom (memory : Memory) (position : Nat) : List UInt8 :=
  (memory.bytesAt position (imageSize - position)).takeWhile (· ≠ 0)

theorem textAt_fst (memory : Memory) (position : Nat) :
    (memory.textAt position).1 = memory.textFrom position := by
  rw [textAt_eq, textFrom]

theorem readText_eq (memory : Memory) (address : UInt32) :
    memory.readText address =
      if address.toNat < imageSize then .ok (memory.textAt address.toNat)
      else .error (.raised (.memoryOutOfBounds address)) := by
  by_cases inside : address.toNat < imageSize
  · have first : address.toNat + 1 ≤ imageSize := inside
    simp only [readText, check, if_pos inside, if_pos first]
    rfl
  · have past : ¬address.toNat + 1 ≤ imageSize := inside
    simp only [readText, check, if_neg inside, if_neg past]
    rfl

end RegisterMachine.Memory
