/-
This file says which words the instructions of the stack read and write. Pushes and calls check
both ends of the stack; pops and returns check only its upper end.
-/

import RegisterMachine.Proofs.Machine.Screening

namespace RegisterMachine

/-- The instructions that move the stack pointer by themselves. -/
def Opcode.usesStack : Opcode → Bool
  | push | call | pop | ret => true
  | _ => false

/-- An instruction that takes a word from the stack and has a place for it. -/
def Instruction.Pops (instruction : Instruction) : Prop :=
  instruction.opcode = .ret ∨
    instruction.opcode = .pop ∧
      ∃ register : Register, register ≠ .hp ∧ instruction.dest = .registerDirect register.id

namespace Machine

/-- One access to the stack: the slot that is read or written, the stack pointer left behind before
a popped word reaches its register, and the machine afterwards. -/
inductive StackAccess (machine : Machine) (instruction : Instruction) :
    (slot pointer : UInt32) → (after : Machine) → Prop
  | pushed (id : UInt8) (value : UInt32) (opcode : instruction.opcode = .push)
      (dest : instruction.dest = .registerDirect id)
      (found : machine.readRegister id = .ok value)
      (low : Segment.stack.base.toNat + stackSlot ≤ machine.sp.toNat)
      (high : machine.sp.toNat ≤ Segment.stack.limit.toNat) :
      StackAccess machine instruction machine.slotBelow machine.slotBelow (machine.pushed value)
  | called (target : UInt32) (opcode : instruction.opcode = .call)
      (found : machine.jumpTarget instruction = .ok target)
      (low : Segment.stack.base.toNat + stackSlot ≤ machine.sp.toNat)
      (high : machine.sp.toNat ≤ Segment.stack.limit.toNat) :
      StackAccess machine instruction machine.slotBelow machine.slotBelow
        { machine.pushed machine.pc with pc := target }
  | popped (register : Register) (opcode : instruction.opcode = .pop)
      (dest : instruction.dest = .registerDirect register.id) (writable : register ≠ .hp)
      (high : machine.sp.toNat + stackSlot ≤ Segment.stack.limit.toNat) :
      StackAccess machine instruction machine.sp machine.slotEnd
        (machine.popped.assign register (machine.memory.wordAt machine.sp.toNat))
  | returned (opcode : instruction.opcode = .ret)
      (high : machine.sp.toNat + stackSlot ≤ Segment.stack.limit.toNat) :
      StackAccess machine instruction machine.sp machine.slotEnd
        { machine.popped with pc := machine.memory.wordAt machine.sp.toNat }

theorem StackAccess.usesStack {machine after : Machine} {instruction : Instruction}
    {slot pointer : UInt32} (access : StackAccess machine instruction slot pointer after) :
    instruction.opcode.usesStack := by
  cases access with
  | pushed _ _ opcode | called _ opcode | popped _ opcode | returned opcode =>
      rw [opcode]
      rfl

/-- A slot and a stack pointer that belong to the stack. -/
structure InsideStack (slot pointer : UInt32) : Prop where
  slotLow : Segment.stack.base.toNat ≤ slot.toNat
  slotHigh : slot.toNat + stackSlot ≤ Segment.stack.limit.toNat
  pointerLow : Segment.stack.base.toNat ≤ pointer.toNat
  pointerHigh : pointer.toNat ≤ Segment.stack.limit.toNat

/-- The slot of an access is inside the stack unless a word is taken from below the stack. -/
theorem StackAccess.inside_iff {machine after : Machine} {instruction : Instruction}
    {slot pointer : UInt32} (access : StackAccess machine instruction slot pointer after) :
    InsideStack slot pointer ↔
      (instruction.opcode = .push ∨ instruction.opcode = .call) ∨
        Segment.stack.base.toNat ≤ machine.sp.toNat := by
  have moved (low : Segment.stack.base.toNat + stackSlot ≤ machine.sp.toNat) :
      machine.slotBelow.toNat = machine.sp.toNat - stackSlot :=
    pushedPointer_toNat machine.sp (Nat.le_trans (by decide) low)
  cases access with
  | pushed id value opcode dest found low high | called target opcode found low high =>
      have below := moved low
      constructor
      · intro _
        exact .inl (by simp [opcode])
      · intro _
        constructor <;> omega
  | popped register opcode dest writable high | returned opcode high =>
      have above : machine.slotEnd.toNat = machine.sp.toNat + stackSlot :=
        poppedPointer_toNat machine.sp high
      constructor
      · intro inside
        exact .inr inside.slotLow
      · intro low
        have base : Segment.stack.base.toNat ≤ machine.sp.toNat := by simpa [opcode] using low
        constructor <;> omega

theorem pushRegister_access {machine after : Machine} {instruction : Instruction}
    (opcode : instruction.opcode = .push) (done : machine.pushRegister instruction = .ok after) :
    ∃ slot pointer, StackAccess machine instruction slot pointer after := by
  obtain ⟨id, dest, done⟩ := bindOk done
  obtain ⟨value, read, done⟩ := bindOk done
  obtain ⟨low, high, stored⟩ := push_ok done
  rw [stored]
  exact ⟨_, _, .pushed id value opcode (Instruction.destRegister_ok dest) read low high⟩

theorem call_access {machine after : Machine} {instruction : Instruction}
    (opcode : instruction.opcode = .call) (done : machine.call instruction = .ok after) :
    ∃ slot pointer, StackAccess machine instruction slot pointer after := by
  obtain ⟨target, jumps, done⟩ := bindOk done
  obtain ⟨stacked, found, returned⟩ := bindOk done
  obtain ⟨low, high, stored⟩ := push_ok found
  rw [← Except.ok.inj returned, stored]
  exact ⟨_, _, .called target opcode jumps low high⟩

theorem popRegister_access {machine after : Machine} {instruction : Instruction}
    (opcode : instruction.opcode = .pop) (done : machine.popRegister instruction = .ok after) :
    ∃ slot pointer, StackAccess machine instruction slot pointer after := by
  obtain ⟨id, found, done⟩ := bindOk done
  obtain ⟨register, writable, done⟩ := bindOk done
  obtain ⟨⟨value, shrunk⟩, loaded, written⟩ := bindOk done
  obtain ⟨high, word, left⟩ := pop_ok loaded
  obtain ⟨named, notHp⟩ := writableRegister_ok writable
  have dest := Instruction.destRegister_ok found
  rw [named] at dest
  dsimp only at written
  rw [writeRegister_eq, writable, word, left] at written
  rw [← Except.ok.inj written]
  exact ⟨_, _, .popped register opcode dest notHp high⟩

theorem returnFromCall_access {machine after : Machine} {instruction : Instruction}
    (opcode : instruction.opcode = .ret) (done : machine.returnFromCall = .ok after) :
    ∃ slot pointer, StackAccess machine instruction slot pointer after := by
  obtain ⟨⟨value, shrunk⟩, loaded, returned⟩ := bindOk done
  obtain ⟨high, word, left⟩ := pop_ok loaded
  rw [← Except.ok.inj returned, word, left]
  exact ⟨_, _, .returned opcode high⟩

/-- A successful instruction of the stack accesses one slot. -/
theorem execute_stackAccess {machine : Machine} {sink : Sink} {instruction : Instruction}
    (usesStack : instruction.opcode.usesStack)
    (succeeded : (machine.execute sink instruction).result = .ok ()) :
    ∃ slot pointer,
      StackAccess machine instruction slot pointer (machine.execute sink instruction).machine := by
  unfold execute at succeeded ⊢
  cases opcode : instruction.opcode
  case push =>
    rw [opcode] at succeeded
    exact pushRegister_access opcode (Outcome.ofUpdate_ok succeeded)
  case call =>
    rw [opcode] at succeeded
    exact call_access opcode (Outcome.ofUpdate_ok succeeded)
  case pop =>
    rw [opcode] at succeeded
    exact popRegister_access opcode (Outcome.ofUpdate_ok succeeded)
  case ret =>
    rw [opcode] at succeeded
    exact returnFromCall_access opcode (Outcome.ofUpdate_ok succeeded)
  all_goals
    rw [opcode] at usesStack
    cases usesStack

/-- An instruction that takes a word from the stack succeeds whenever a slot fits below the end of
the stack. -/
theorem execute_pops {machine : Machine} (sink : Sink) {instruction : Instruction}
    (pops : instruction.Pops)
    (high : machine.sp.toNat + stackSlot ≤ Segment.stack.limit.toNat) :
    (machine.execute sink instruction).result = .ok () := by
  have popped : machine.pop = .ok (machine.memory.wordAt machine.sp.toNat, machine.popped) := by
    rw [pop_eq, if_pos high]
  rcases pops with opcode | ⟨opcode, register, notHp, dest⟩
  · simp only [execute, opcode, returnFromCall, popped, okBind, pureOk, Outcome.ofUpdate]
  · simp only [execute, opcode, popRegister, Instruction.destRegister, dest, popped, okBind,
      writableRegister_id notHp, writeRegister_eq, Except.map, Outcome.ofUpdate]

/-- An instruction of the stack either fails or accesses a slot inside the stack. -/
def StaysInStack (machine : Machine) (sink : Sink) (instruction : Instruction) : Prop :=
  (∃ error, (machine.execute sink instruction).result = .error (.raised error)) ∨
    (machine.execute sink instruction).result = .ok () ∧
      ∃ slot pointer, InsideStack slot pointer ∧
        StackAccess machine instruction slot pointer (machine.execute sink instruction).machine

/-- The instructions of the stack stay inside it, except for a pop or a return while the stack
pointer is below the stack. -/
theorem staysInStack_iff (machine : Machine) (sink : Sink) (instruction : Instruction)
    (usesStack : instruction.opcode.usesStack) :
    machine.StaysInStack sink instruction ↔
      ¬(instruction.Pops ∧ machine.sp.toNat < Segment.stack.base.toNat) := by
  constructor
  · rintro (⟨error, failed⟩ | ⟨_, slot, pointer, inside, access⟩) ⟨pops, low⟩
    · have high : machine.sp.toNat + stackSlot ≤ Segment.stack.limit.toNat := by
        rw [stackBase_toNat] at low
        rw [stackLimit_toNat, imageSize_eq, stackSlot]
        omega
      rw [execute_pops sink pops high] at failed
      cases failed
    · rcases access.inside_iff.mp inside with pushes | base
      · rcases pops with opcode | ⟨opcode, _⟩ <;> simp [opcode] at pushes
      · omega
  · intro above
    cases result : (machine.execute sink instruction).result with
    | error reason =>
        obtain ⟨error, raised, _⟩ := execute_failsOnly machine sink instruction reason result
        exact .inl ⟨error, by rw [result, raised]⟩
    | ok value =>
        obtain ⟨slot, pointer, access⟩ := execute_stackAccess usesStack result
        refine .inr ⟨result, slot, pointer, access.inside_iff.mpr ?_, access⟩
        generalize (machine.execute sink instruction).machine = after at access
        cases access with
        | pushed _ _ opcode | called _ opcode => exact .inl (by simp [opcode])
        | popped register opcode dest notHp =>
            refine .inr (Nat.le_of_not_lt fun low => above ⟨?_, low⟩)
            exact .inr ⟨opcode, register, notHp, dest⟩
        | returned opcode =>
            exact .inr (Nat.le_of_not_lt fun low => above ⟨.inl opcode, low⟩)

/-- A push onto the empty stack stays inside it. -/
theorem staysInStack_push :
    (empty none).StaysInStack .unlimited
      ⟨.push, .registerDirect Register.r0.id, .absent, false, false⟩ := by
  apply (staysInStack_iff _ _ _ rfl).mpr
  rintro ⟨pops, _⟩
  rcases pops with ret | ⟨pop, _⟩
  · cases ret
  · cases pop

/-- A pop while the stack pointer is zero reads the code. -/
theorem pop_leavesStack :
    ¬StaysInStack { empty none with sp := 0 } .unlimited
      ⟨.pop, .registerDirect Register.r1.id, .absent, false, false⟩ := by
  rintro (⟨error, failed⟩ | ⟨_, slot, pointer, inside, access⟩)
  · rw [execute_pops .unlimited (.inr ⟨rfl, .r1, by decide, rfl⟩) (by decide)] at failed
    cases failed
  · rcases access.inside_iff.mp inside with (push | call) | base
    · cases push
    · cases call
    · exact absurd base (by decide)

end Machine

end RegisterMachine
