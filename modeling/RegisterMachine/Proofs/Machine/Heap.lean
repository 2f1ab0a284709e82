/-
This file says where the host puts its texts. An allocation that fits writes the text and a zero
at the heap pointer and moves the pointer past them, and nothing else changes.
-/

import RegisterMachine.Proofs.Machine.Fetch

namespace RegisterMachine.Machine

theorem heapLimit_toNat : Segment.heap.limit.toNat = 0x4C0000 := rfl

/-- The machine with bytes and a zero behind them on its heap. -/
def stored (machine : Machine) (bytes : List UInt8) : Machine :=
  { machine with
    memory := machine.memory.setBytes machine.hp.toNat (bytes ++ [0])
    hp := machine.hp + UInt32.ofNat (bytes.length + 1) }

/-- The writes of bytes that fit, one after the other: none of them fails. -/
theorem store_writes (machine : Machine) (bytes : List UInt8)
    (fits : machine.hp.toNat + (bytes.length + 1) ≤ Segment.heap.limit.toNat) :
    machine.memory.write machine.hp bytes =
        .ok (machine.memory.setBytes machine.hp.toNat bytes) ∧
      advance machine.hp bytes.length = .ok (machine.hp + UInt32.ofNat bytes.length) ∧
      (machine.memory.setBytes machine.hp.toNat bytes).writeByte
          (machine.hp + UInt32.ofNat bytes.length) 0 =
        .ok (machine.memory.setBytes machine.hp.toNat (bytes ++ [0])) ∧
      advance machine.hp (bytes.length + 1) =
        .ok (machine.hp + UInt32.ofNat (bytes.length + 1)) := by
  rw [heapLimit_toNat] at fits
  have size : imageSize = 0x500000 := rfl
  have text : machine.hp.toNat + bytes.length ≤ imageSize := by omega
  have position : (machine.hp + UInt32.ofNat bytes.length).toNat =
      machine.hp.toNat + bytes.length := by
    rw [UInt32.toNat_add, UInt32.toNat_ofNat', Nat.mod_eq_of_lt (by omega : bytes.length < 2 ^ 32),
      Nat.mod_eq_of_lt (by omega)]
  have zero : machine.hp.toNat + bytes.length + [(0 : UInt8)].length ≤ imageSize := by
    rw [List.length_singleton]
    omega
  refine ⟨?_, advance_eq _ _ (by omega), ?_, advance_eq _ _ (by omega)⟩
  · rw [Memory.write_eq, if_pos text]
  · rw [Memory.writeByte, Memory.write_eq, position, if_pos zero, Memory.setBytes_append]

theorem store_eq (machine : Machine) (bytes : List UInt8)
    (fits : machine.hp.toNat + (bytes.length + 1) ≤ Segment.heap.limit.toNat) :
    machine.store bytes = .ok (machine.stored bytes) := by
  obtain ⟨text, last, zero, moved⟩ := machine.store_writes bytes fits
  simp only [store, text, last, zero, moved, okBind, Abort.liftOk, pureOk, stored]

/-- The bytes that a text takes on the heap, without the zero behind them. -/
def textBytes (text : String) : List UInt8 :=
  text.toUTF8.data.toList

/-- An allocation succeeds exactly if the text and its zero fit below the end of the heap. -/
theorem allocateText_eq (machine : Machine) (text : String) :
    (machine.allocateText text).value =
      if machine.hp.toNat + ((textBytes text).length + 1) ≤ Segment.heap.limit.toNat then
        .ok (machine.hp, machine.stored (textBytes text))
      else .error (.raised (.heapOutOfBounds ((textBytes text).length + 1))) := by
  unfold allocateText
  dsimp only
  change (if machine.hp.toNat + ((textBytes text).length + 1) ≤ Segment.heap.limit.toNat then
    _ else _ : Logged _).value = _
  by_cases fits : machine.hp.toNat + ((textBytes text).length + 1) ≤ Segment.heap.limit.toNat
  · have stored := machine.store_eq (textBytes text) fits
    rw [textBytes] at stored
    rw [if_pos fits, if_pos fits, stored]
    rfl
  · rw [if_neg fits, if_neg fits]
    rfl

/-- The heap pointer after an allocation that fits does not wrap. -/
theorem stored_hp {machine : Machine} {bytes : List UInt8}
    (fits : machine.hp.toNat + (bytes.length + 1) ≤ Segment.heap.limit.toNat) :
    (machine.stored bytes).hp.toNat = machine.hp.toNat + (bytes.length + 1) := by
  rw [heapLimit_toNat] at fits
  rw [stored, UInt32.toNat_add, UInt32.toNat_ofNat',
    Nat.mod_eq_of_lt (by omega : bytes.length + 1 < 2 ^ 32), Nat.mod_eq_of_lt (by omega)]

/-- An allocation leaves the bytes below the heap pointer. -/
theorem stored_below {machine : Machine} {bytes : List UInt8}
    (fits : machine.hp.toNat + (bytes.length + 1) ≤ Segment.heap.limit.toNat) {position : Nat}
    (below : position < machine.hp.toNat) :
    (machine.stored bytes).memory.byteAt position = machine.memory.byteAt position := by
  rw [heapLimit_toNat] at fits
  apply Memory.byteAt_setBytes_outside
  · rw [List.length_append, List.length_singleton]
    have size : imageSize = 0x500000 := rfl
    omega
  · exact .inl below

end RegisterMachine.Machine
