/-
This file numbers the rows of a section. The row with a number is the same piece of the section
wherever rows are made: in the listing, among the instructions and in the blocks of a dump.
-/

import Mathlib.Data.List.Basic
import RegisterMachine.Container.Basic
import RegisterMachine.Proofs.Instruction.Codec

namespace RegisterMachine.Container

/-- The bytes of the row with a number. The last row may be shorter than others. -/
def rowAt (bytes : List UInt8) (index : Nat) : List UInt8 :=
  (bytes.drop (8 * index)).take 8

/-- Number of rows of a section, the last of which may be shorter. -/
def rowCount (bytes : List UInt8) : Nat :=
  (bytes.length + 7) / 8

theorem rowAt_length (bytes : List UInt8) (index : Nat) :
    (rowAt bytes index).length = min 8 (bytes.length - 8 * index) := by
  rw [rowAt, List.length_take, List.length_drop]

theorem rowAt_length_le (bytes : List UInt8) (index : Nat) : (rowAt bytes index).length ≤ 8 := by
  rw [rowAt_length]
  exact Nat.min_le_left _ _

theorem rowAt_drop (bytes : List UInt8) (index : Nat) :
    rowAt (bytes.drop 8) index = rowAt bytes (index + 1) := by
  rw [rowAt, rowAt, List.drop_drop, Nat.mul_add, Nat.add_comm 8]

/-- A section is cut behind its first eight bytes. -/
theorem rows_cons {bytes : List UInt8} (nonempty : bytes ≠ []) :
    rows bytes = bytes.take 8 :: rows (bytes.drop 8) := by
  match bytes, nonempty with
  | _ :: _ :: _ :: _ :: _ :: _ :: _ :: _ :: _, _ => rfl
  | [_], _ | [_, _], _ | [_, _, _], _ | [_, _, _, _], _ | [_, _, _, _, _], _
  | [_, _, _, _, _, _], _ | [_, _, _, _, _, _, _], _ => rfl

/-- What holds of an empty section, and of a section if it holds behind its first row, holds of
every section. -/
theorem row_induction {motive : List UInt8 → Prop} (empty : motive [])
    (row : ∀ bytes, bytes ≠ [] → motive (bytes.drop 8) → motive bytes) (bytes : List UInt8) :
    motive bytes := by
  induction size : bytes.length using Nat.strongRecOn generalizing bytes with
  | ind length inductionHypothesis =>
      by_cases none : bytes = []
      · rw [none]
        exact empty
      · apply row bytes none
        have some := List.length_pos_iff.mpr none
        apply inductionHypothesis _ _ _ rfl
        rw [List.length_drop]
        omega

theorem rows_eq (bytes : List UInt8) :
    rows bytes = (List.range (rowCount bytes)).map (rowAt bytes) := by
  induction bytes using row_induction with
  | empty => rfl
  | row bytes nonempty inductionHypothesis =>
      have some := List.length_pos_iff.mpr nonempty
      have count : rowCount bytes = rowCount (bytes.drop 8) + 1 := by
        rw [rowCount, rowCount, List.length_drop]
        omega
      rw [rows_cons nonempty, inductionHypothesis, count, List.range_succ_eq_map, List.map_cons,
        List.map_map]
      congr 1
      exact List.map_congr_left fun index _ => rowAt_drop bytes index

/-- The rows of a section make it up. -/
theorem rows_flatten (bytes : List UInt8) :
    (List.range (rowCount bytes)).flatMap (rowAt bytes) = bytes := by
  rw [List.flatMap_def, ← rows_eq]
  induction bytes using row_induction with
  | empty => rfl
  | row bytes nonempty inductionHypothesis =>
      rw [rows_cons nonempty, List.flatten_cons, inductionHypothesis, List.take_append_drop]

theorem offsetRows_eq (bytes : List UInt8) :
    offsetRows bytes =
      (List.range (rowCount bytes)).map fun index => (8 * index, rowAt bytes index) := by
  rw [offsetRows, rows_eq]
  apply List.ext_getElem
  · simp
  · intro index _ inside
    simp [Instruction.byteSize, Nat.mul_comm]

theorem rowCount_eq_zero {bytes : List UInt8} : rowCount bytes = 0 ↔ bytes = [] := by
  rw [rowCount, ← List.length_eq_zero_iff]
  omega

/-- A row begins inside its section. -/
theorem lt_length_of_lt_rowCount {bytes : List UInt8} {index : Nat}
    (inside : index < rowCount bytes) : 8 * index < bytes.length := by
  rw [rowCount] at inside
  omega

/-- Full rows are decoded, and no others. -/
theorem decode?_rowAt (bytes : List UInt8) (index : Nat) :
    (Instruction.decode? (rowAt bytes index)).isSome ↔ index < bytes.length / 8 := by
  rw [← Option.ne_none_iff_isSome, ne_eq, Instruction.decode?_eq_none_iff, rowAt_length,
    Instruction.byteSize]
  omega

/-- The instruction of a row with its offset, if the row is full. -/
def entryAt (code : List UInt8) (index : Nat) : Option (Nat × Except DecodeError Instruction) :=
  (Instruction.decode? (rowAt code index)).map fun decoded => (8 * index, decoded)

theorem instructions_filterMap (container : Container) :
    container.instructions =
      (List.range (rowCount container.code)).filterMap (entryAt container.code) := by
  rw [instructions, offsetRows_eq, List.filterMap_map]
  rfl

/-- The instructions are the full rows of the code, each with its offset and its decoding. -/
theorem instructions_eq (container : Container) :
    (container.instructions.map fun (offset, decoded) => (offset, some decoded)) =
      (List.range container.instructionCount).map fun index =>
        (8 * index, Instruction.decode? (rowAt container.code index)) := by
  obtain ⟨short, count⟩ : ∃ short, rowCount container.code = container.instructionCount + short :=
    Nat.exists_eq_add_of_le (Nat.div_le_div_right (Nat.le_add_right _ _))
  have behind : ((List.range short).map (container.instructionCount + ·)).filterMap
      (entryAt container.code) = [] := by
    rw [List.filterMap_eq_nil_iff]
    intro index member
    obtain ⟨further, _, rfl⟩ := List.mem_map.mp member
    have short := mt (decode?_rowAt container.code _).mp
      (Nat.not_lt_of_le (Nat.le_add_right container.instructionCount further))
    rw [entryAt, Option.not_isSome_iff_eq_none.mp short, Option.map_none]
  rw [instructions_filterMap, count, List.range_add, List.filterMap_append, behind,
    List.append_nil, List.map_filterMap, List.filterMap_eq_map_iff_forall_eq_some]
  intro index member
  obtain ⟨decoded, found⟩ := Option.isSome_iff_exists.mp
    ((decode?_rowAt container.code index).mpr (List.mem_range.mp member))
  simp [entryAt, found]

end RegisterMachine.Container
