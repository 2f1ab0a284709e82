/-
This file gives pushes and pops as one case distinction on the stack pointer each.
-/

import RegisterMachine.Machine.Execute
import RegisterMachine.Proofs.Machine.Memory
import RegisterMachine.Proofs.Machine.Register

namespace RegisterMachine.Machine

theorem stackBase_toNat : Segment.stack.base.toNat = 0x4C0000 := rfl

/-- The stack ends where the image ends. -/
theorem stackLimit_toNat : Segment.stack.limit.toNat = imageSize := rfl

theorem imageSize_eq : imageSize = 0x500000 := rfl

/-- The stack pointer after a push does not wrap. -/
theorem pushedPointer_toNat (sp : UInt32) (room : 4 ≤ sp.toNat) :
    (sp - UInt32.ofNat stackSlot).toNat = sp.toNat - 4 :=
  UInt32.toNat_sub_of_le _ _ (UInt32.le_iff_toNat_le.mpr room)

/-- The stack pointer after a pop does not wrap. -/
theorem poppedPointer_toNat (sp : UInt32) (room : sp.toNat + 4 ≤ Segment.stack.limit.toNat) :
    (sp + UInt32.ofNat stackSlot).toNat = sp.toNat + 4 := by
  rw [stackLimit_toNat, imageSize_eq] at room
  have four : (UInt32.ofNat stackSlot).toNat = 4 := rfl
  rw [UInt32.toNat_add, four, Nat.mod_eq_of_lt (by omega)]

/-- The slot below the top of the stack. -/
def slotBelow (machine : Machine) : UInt32 :=
  machine.sp - UInt32.ofNat stackSlot

/-- The end of the slot at the top of the stack. -/
def slotEnd (machine : Machine) : UInt32 :=
  machine.sp + UInt32.ofNat stackSlot

/-- The machine with a word stored below the top of its stack. -/
def pushed (machine : Machine) (value : UInt32) : Machine :=
  { machine with
    memory := machine.memory.setBytes machine.slotBelow.toNat (Word.toBytes value)
    sp := machine.slotBelow }

/-- The machine with one slot less on its stack. -/
def popped (machine : Machine) : Machine :=
  { machine with sp := machine.slotEnd }

/-- A push succeeds from one slot above the start of the stack up to its end. -/
theorem push_eq (machine : Machine) (value : UInt32) :
    machine.push value =
      if machine.sp.toNat < Segment.stack.base.toNat + stackSlot then
        .error (.raised .stackOverflow)
      else if machine.sp.toNat ≤ Segment.stack.limit.toNat then .ok (machine.pushed value)
      else .error (.raised (.memoryOutOfBounds machine.slotBelow)) := by
  unfold push
  by_cases low : machine.sp.toNat < Segment.stack.base.toNat + stackSlot
  · rw [if_pos low, if_neg (Nat.not_le_of_lt low)]
    rfl
  · have room : 4 ≤ machine.sp.toNat := by
      rw [stackBase_toNat] at low
      omega
    rw [if_neg low, if_pos (Nat.le_of_not_lt low)]
    dsimp only
    rw [Memory.writeWord_eq, pushedPointer_toNat machine.sp room, stackLimit_toNat]
    by_cases inside : machine.sp.toNat ≤ imageSize
    · rw [if_pos inside, if_pos (by omega), pushed, slotBelow,
        pushedPointer_toNat machine.sp room]
      rfl
    · rw [if_neg inside, if_neg (by omega)]
      rfl

/-- A pop succeeds up to one slot below the end of the stack, however low the pointer is. -/
theorem pop_eq (machine : Machine) :
    machine.pop =
      if machine.sp.toNat + stackSlot ≤ Segment.stack.limit.toNat then
        .ok (machine.memory.wordAt machine.sp.toNat, machine.popped)
      else .error (.raised .stackUnderflow) := by
  unfold pop
  by_cases inside : machine.sp.toNat + stackSlot ≤ Segment.stack.limit.toNat
  · have within : machine.sp.toNat + 4 ≤ imageSize := inside
    rw [if_pos inside, if_pos inside, Memory.readWord_eq, if_pos within]
    rfl
  · rw [if_neg inside, if_neg inside]
    rfl

theorem push_ok {machine after : Machine} {value : UInt32}
    (stored : machine.push value = .ok after) :
    Segment.stack.base.toNat + stackSlot ≤ machine.sp.toNat ∧
      machine.sp.toNat ≤ Segment.stack.limit.toNat ∧ after = machine.pushed value := by
  rw [push_eq] at stored
  by_cases low : machine.sp.toNat < Segment.stack.base.toNat + stackSlot
  · rw [if_pos low] at stored
    cases stored
  · rw [if_neg low] at stored
    by_cases high : machine.sp.toNat ≤ Segment.stack.limit.toNat
    · rw [if_pos high] at stored
      cases stored
      exact ⟨Nat.le_of_not_lt low, high, rfl⟩
    · rw [if_neg high] at stored
      cases stored

theorem pop_ok {machine after : Machine} {value : UInt32}
    (loaded : machine.pop = .ok (value, after)) :
    machine.sp.toNat + stackSlot ≤ Segment.stack.limit.toNat ∧
      value = machine.memory.wordAt machine.sp.toNat ∧ after = machine.popped := by
  rw [pop_eq] at loaded
  by_cases high : machine.sp.toNat + stackSlot ≤ Segment.stack.limit.toNat
  · rw [if_pos high, Except.ok.injEq, Prod.mk.injEq] at loaded
    exact ⟨high, loaded.1.symm, loaded.2.symm⟩
  · rw [if_neg high] at loaded
    cases loaded

/-- A push writes to the slot that becomes the top of the stack, and to no other byte. -/
theorem pushed_memory (machine : Machine) (value : UInt32)
    (low : Segment.stack.base.toNat + stackSlot ≤ machine.sp.toNat)
    (high : machine.sp.toNat ≤ Segment.stack.limit.toNat) {position : Nat}
    (outside : ¬(machine.slotBelow.toNat ≤ position ∧ position < machine.slotBelow.toNat + 4)) :
    (machine.pushed value).memory.byteAt position = machine.memory.byteAt position := by
  have room : 4 ≤ machine.sp.toNat := Nat.le_trans (by decide) low
  have slot : machine.slotBelow.toNat = machine.sp.toNat - 4 :=
    pushedPointer_toNat machine.sp room
  rw [stackLimit_toNat] at high
  apply Memory.byteAt_setBytes_outside
  · rw [Word.toBytesLength, slot]
    omega
  · rw [Word.toBytesLength]
    omega

end RegisterMachine.Machine
