/-
This file relates the stack in memory to a list of words. What an instruction does with the list is
said first; one step of the machine does the same with its stack pointer and its memory.
-/

import RegisterMachine.Proofs.Machine.Assignment

namespace RegisterMachine

/-- What an instruction does with the stack. -/
inductive StackAction where
  | push (value : UInt32)
  | pop
  | keep
  deriving DecidableEq, Repr

namespace StackAction

/-- The number of words that the stack has room for. -/
def capacity : Nat := 65536

/-- A bounded list of words, of which the one that was added last comes first. -/
def apply : StackAction → List UInt32 → Except RuntimeError (List UInt32)
  | push value, words =>
      if words.length < capacity then .ok (value :: words) else .error .stackOverflow
  | pop, [] => .error .stackUnderflow
  | pop, _ :: older => .ok older
  | keep, words => .ok words

end StackAction

namespace Instruction

/-- An instruction that names the stack pointer as the register that it changes. -/
def AssignsPointer (instruction : Instruction) : Prop :=
  instruction.opcode.assigns ∧ instruction.dest = .registerDirect Register.sp.id

instance (instruction : Instruction) : Decidable instruction.AssignsPointer :=
  inferInstanceAs (Decidable (_ ∧ _))

/-- A push of a register and a call of an address add a word, and a return and a pop into a register
that can be changed take one away. Without such an operand they leave the stack alone. The program
counter of the machine is already past the instruction. -/
def stackAction (instruction : Instruction) (machine : Machine) : StackAction :=
  match instruction.opcode, instruction.dest with
  | .push, .registerDirect id =>
      ((Register.ofId? id).map fun register => .push (machine.valueOf register)).getD .keep
  | .call, .immediateAddress _ | .call, .pcRelative _ =>
      .push machine.pc
  | .ret, _ => .pop
  | .pop, .registerDirect id =>
      if (Register.ofId? id).any (· ≠ .hp) then .pop else .keep
  | _, _ => .keep

/-- Where the word goes that an instruction took from the stack. -/
def Receives (instruction : Instruction) (value : UInt32) (machine : Machine) : Prop :=
  match instruction.opcode, instruction.dest with
  | .ret, _ => machine.pc = value
  | .pop, .registerDirect id => ∃ register, Register.ofId? id = some register ∧
      machine.valueOf register = value
  | _, _ => False

end Instruction

namespace Machine

/-- The words of a list lie one after the other from the stack pointer to the end of the stack. -/
structure Stacked (words : List UInt32) (machine : Machine) : Prop where
  pointer : machine.sp.toNat + 4 * words.length = Segment.stack.limit.toNat
  bounded : words.length ≤ StackAction.capacity
  contents : ∀ index (inside : index < words.length),
    machine.memory.wordAt (machine.sp.toNat + 4 * index) = words[index]

/-- Nothing of the stack has changed. -/
structure SameStack (before after : Machine) : Prop where
  sp : after.sp = before.sp
  memory : after.memory = before.memory

theorem SameStack.refl (machine : Machine) : SameStack machine machine :=
  ⟨rfl, rfl⟩

theorem Stacked.of_same {words : List UInt32} {before after : Machine}
    (stacked : Stacked words before) (same : SameStack before after) : Stacked words after := by
  obtain ⟨sp, memory⟩ := same
  refine ⟨?_, stacked.bounded, ?_⟩
  · rw [sp]
    exact stacked.pointer
  · rw [sp, memory]
    exact stacked.contents

end Machine

/-- A word outside the bytes that are written stays. -/
theorem Memory.wordAt_setBytes_above (memory : Memory) (position other : Nat) (bytes : List UInt8)
    (fits : position + bytes.length ≤ imageSize) (above : position + bytes.length ≤ other) :
    (memory.setBytes position bytes).wordAt other = memory.wordAt other := by
  have kept (offset : Nat) := memory.byteAt_setBytes_outside position (other + offset) bytes fits
    (.inr (Nat.le_trans above (Nat.le_add_right other offset)))
  rw [wordAt, wordAt, kept 1, kept 2, kept 3]
  rw [memory.byteAt_setBytes_outside position other bytes fits (.inr above)]

namespace Machine

variable {machine : Machine} {words : List UInt32}

theorem Stacked.push_eq (stacked : Stacked words machine) (value : UInt32) :
    machine.push value =
      if words.length < StackAction.capacity then .ok (machine.pushed value)
      else .error (.raised .stackOverflow) := by
  have pointer := stacked.pointer
  have high : machine.sp.toNat ≤ Segment.stack.limit.toNat := by omega
  rw [Machine.push_eq, if_pos high]
  rw [stackLimit_toNat, imageSize_eq] at pointer
  by_cases room : words.length < StackAction.capacity
  · rw [if_pos room, if_neg]
    rw [StackAction.capacity] at room
    rw [stackBase_toNat, stackSlot]
    omega
  · rw [if_neg room, if_pos]
    rw [StackAction.capacity] at room
    rw [stackBase_toNat, stackSlot]
    omega

theorem Stacked.pushed (stacked : Stacked words machine)
    (room : words.length < StackAction.capacity) (value : UInt32) :
    Stacked (value :: words) (machine.pushed value) := by
  have pointer := stacked.pointer
  rw [stackLimit_toNat, imageSize_eq] at pointer
  have size := imageSize_eq
  have few := room
  rw [StackAction.capacity] at few
  have below : machine.slotBelow.toNat = machine.sp.toNat - 4 :=
    pushedPointer_toNat machine.sp (by omega)
  have fits : machine.slotBelow.toNat + 4 ≤ imageSize := by omega
  refine ⟨?_, room, ?_⟩
  · change machine.slotBelow.toNat + 4 * (words.length + 1) = Segment.stack.limit.toNat
    rw [stackLimit_toNat]
    omega
  · intro index inside
    change (machine.memory.setBytes machine.slotBelow.toNat (Word.toBytes value)).wordAt
      (machine.slotBelow.toNat + 4 * index) = (value :: words)[index]
    cases index with
    | zero => exact machine.memory.wordAt_setBytes _ value fits
    | succ index =>
        have older := stacked.contents index (Nat.lt_of_succ_lt_succ inside)
        have position : machine.slotBelow.toNat + 4 * (index + 1) =
            machine.sp.toNat + 4 * index := by omega
        rw [position, Memory.wordAt_setBytes_above, older, List.getElem_cons_succ]
        · exact fits
        · rw [Word.toBytesLength]
          omega

theorem Stacked.pop_nil (stacked : Stacked [] machine) :
    machine.pop = .error (.raised .stackUnderflow) := by
  have pointer : machine.sp.toNat = Segment.stack.limit.toNat := stacked.pointer
  rw [pop_eq, pointer, if_neg (by rw [stackSlot]; omega)]

theorem Stacked.pop_cons {value : UInt32} (stacked : Stacked (value :: words) machine) :
    machine.pop = .ok (value, machine.popped) := by
  have pointer := stacked.pointer
  rw [List.length_cons] at pointer
  have newest : machine.memory.wordAt machine.sp.toNat = value :=
    stacked.contents 0 (Nat.zero_lt_succ _)
  rw [pop_eq, if_pos (by rw [stackSlot]; omega), newest]

theorem Stacked.popped {value : UInt32} (stacked : Stacked (value :: words) machine) :
    Stacked words machine.popped := by
  have pointer := stacked.pointer
  rw [List.length_cons] at pointer
  have above : machine.slotEnd.toNat = machine.sp.toNat + 4 :=
    poppedPointer_toNat machine.sp (by omega)
  refine ⟨?_, Nat.le_of_succ_le stacked.bounded, ?_⟩
  · change machine.slotEnd.toNat + 4 * words.length = Segment.stack.limit.toNat
    omega
  · intro index inside
    have older := stacked.contents (index + 1) (Nat.succ_lt_succ inside)
    change machine.memory.wordAt (machine.slotEnd.toNat + 4 * index) = words[index]
    rw [List.getElem_cons_succ] at older
    rw [← older, above]
    congr 1
    omega

/-- The stack stays unless its pointer is named as the register to change. -/
theorem Changed.sameStack {machine after : Machine} {instruction : Instruction}
    (spares : ¬instruction.AssignsPointer) (changed : Changed machine instruction after) :
    SameStack machine after := by
  cases changed with
  | register register value flags assigns dest =>
      refine ⟨if_neg ?_, rfl⟩
      intro isPointer
      rw [isPointer] at dest
      exact spares ⟨assigns, dest⟩
  | state => exact ⟨rfl, rfl⟩

theorem execute_failedStack {machine : Machine} {sink : Sink} {instruction : Instruction}
    {error : RuntimeError}
    (failed : (machine.execute sink instruction).result = .error (.raised error)) :
    SameStack machine (machine.execute sink instruction).machine := by
  obtain ⟨⟨flags, same, _⟩, _⟩ := execute_failed failed
  rw [same]
  exact ⟨rfl, rfl⟩

/-- An instruction that accesses the stack has an operand for it. -/
theorem StackAccess.acts {machine after : Machine} {instruction : Instruction}
    {slot pointer : UInt32} (access : StackAccess machine instruction slot pointer after) :
    instruction.stackAction machine ≠ .keep := by
  cases access with
  | pushed id value opcode dest found =>
      obtain ⟨register, rfl, _⟩ := readRegister_ok found
      simp [Instruction.stackAction, opcode, dest, Register.ofIdId]
  | called target opcode found =>
      unfold jumpTarget at found
      split at found
      · rename_i dest
        simp [Instruction.stackAction, opcode, dest]
      · rename_i dest
        simp [Instruction.stackAction, opcode, dest]
      · cases found
  | popped register opcode dest writable =>
      simp [Instruction.stackAction, opcode, dest, Register.ofIdId, writable]
  | returned opcode => simp [Instruction.stackAction, opcode]

/-- An instruction without an action on the stack leaves it alone. -/
theorem execute_keep (machine : Machine) (sink : Sink) {instruction : Instruction}
    (spares : ¬instruction.AssignsPointer) (keeps : instruction.stackAction machine = .keep) :
    SameStack machine (machine.execute sink instruction).machine := by
  cases result : (machine.execute sink instruction).result with
  | error reason =>
      obtain ⟨error, raised, _⟩ := execute_failsOnly machine sink instruction reason result
      rw [raised] at result
      exact execute_failedStack result
  | ok value =>
      cases uses : instruction.opcode.usesStack with
      | false => exact (machine.execute_changed sink uses).sameStack spares
      | true =>
          obtain ⟨_, _, access⟩ := execute_stackAccess uses result
          exact absurd keeps access.acts

section Actions

variable {machine : Machine} {words : List UInt32} {instruction : Instruction} (sink : Sink)

/-- An instruction that adds a word is a push of a register or a call of an address. -/
theorem stackAction_push {value : UInt32}
    (pushes : instruction.stackAction machine = .push value) :
    (instruction.opcode = .push ∧ ∃ register : Register,
      instruction.dest = .registerDirect register.id ∧ machine.valueOf register = value) ∨
    (instruction.opcode = .call ∧ machine.pc = value ∧
      ∃ target, machine.jumpTarget instruction = .ok target) := by
  unfold Instruction.stackAction at pushes
  split at pushes
  · rename_i id opcode dest
    cases named : Register.ofId? id with
    | none =>
        rw [named] at pushes
        cases pushes
    | some register =>
        rw [named] at pushes
        rw [Register.ofId?_eq_some named] at dest
        exact .inl ⟨opcode, register, dest, StackAction.push.inj pushes⟩
  · rename_i target opcode dest
    exact .inr ⟨opcode, StackAction.push.inj pushes, target, by rw [jumpTarget, dest]⟩
  · rename_i offset opcode dest
    exact .inr ⟨opcode, StackAction.push.inj pushes, machine.pc + offset,
      by rw [jumpTarget, dest]⟩
  · cases pushes
  · split at pushes <;> cases pushes
  · cases pushes

/-- A call adds the address behind it. -/
theorem stackAction_call (opcode : instruction.opcode = .call)
    (acts : instruction.stackAction machine ≠ .keep) :
    instruction.stackAction machine = .push machine.pc := by
  rw [Instruction.stackAction, opcode] at acts ⊢
  cases dest : instruction.dest with
  | immediateAddress | pcRelative => rfl
  | registerDirect | immediateInt | registerIndirect | baseOffset | absent =>
      rw [dest] at acts
      exact absurd rfl acts

/-- An instruction that takes a word away is a return or a pop that has a place for it. -/
theorem stackAction_pop (pops : instruction.stackAction machine = .pop) : instruction.Pops := by
  unfold Instruction.stackAction at pops
  split at pops
  · rename_i id _ _
    cases named : Register.ofId? id with
    | none | some register =>
        rw [named] at pops
        cases pops
  · cases pops
  · cases pops
  · rename_i opcode
    exact .inl opcode
  · rename_i id opcode dest
    split at pops
    · rename_i writable
      cases named : Register.ofId? id with
      | none =>
          rw [named] at writable
          cases writable
      | some register =>
          rw [named, Option.any_some, decide_eq_true_iff] at writable
          rw [Register.ofId?_eq_some named] at dest
          exact .inr ⟨opcode, register, writable, dest⟩
    · cases pops
  · cases pops

/-- An instruction that adds a word succeeds as long as there is room for it. -/
theorem execute_pushed {value : UInt32} (stacked : Stacked words machine)
    (pushes : instruction.stackAction machine = .push value) :
    if words.length < StackAction.capacity then
      (machine.execute sink instruction).result = .ok () ∧
        Stacked (value :: words) (machine.execute sink instruction).machine
    else (machine.execute sink instruction).result = .error (.raised .stackOverflow) := by
  rcases stackAction_push pushes with ⟨opcode, register, dest, held⟩ | ⟨opcode, held, target, found⟩
  · simp only [execute, opcode, pushRegister, Instruction.destRegister, dest, okBind,
      readRegister_id, held, stacked.push_eq]
    split
    · rename_i room
      exact ⟨rfl, stacked.pushed room value⟩
    · rfl
  · simp only [execute, opcode, call, found, okBind, held, stacked.push_eq]
    split
    · rename_i room
      obtain ⟨pointer, bounded, contents⟩ := stacked.pushed room value
      exact ⟨rfl, pointer, bounded, contents⟩
    · rfl

/-- An instruction that takes a word away gets the one that was added last. -/
theorem execute_popped (stacked : Stacked words machine)
    (spares : ¬instruction.AssignsPointer)
    (pops : instruction.stackAction machine = .pop) :
    match words with
    | [] => (machine.execute sink instruction).result = .error (.raised .stackUnderflow)
    | value :: older => (machine.execute sink instruction).result = .ok () ∧
        Stacked older (machine.execute sink instruction).machine ∧
        instruction.Receives value (machine.execute sink instruction).machine := by
  rcases stackAction_pop pops with opcode | ⟨opcode, register, notHp, dest⟩
  · cases words with
    | nil =>
        simp only [execute, opcode, returnFromCall, stacked.pop_nil, errorBind]
        rfl
    | cons value older =>
        simp only [execute, opcode, returnFromCall, stacked.pop_cons, okBind, pureOk,
          Instruction.Receives]
        exact ⟨rfl, stacked.popped.of_same ⟨rfl, rfl⟩, rfl⟩
  · cases words with
    | nil =>
        simp only [execute, opcode, popRegister, Instruction.destRegister, dest,
          writableRegister_id notHp, stacked.pop_nil, okBind, errorBind]
        rfl
    | cons value older =>
        have other : register ≠ .sp := by
          intro isPointer
          rw [isPointer] at dest
          exact spares ⟨by rw [opcode]; rfl, dest⟩
        simp only [execute, opcode, popRegister, Instruction.destRegister, dest,
          writableRegister_id notHp, stacked.pop_cons, okBind, writeRegister_eq,
          Instruction.Receives]
        exact ⟨rfl, stacked.popped.of_same ⟨if_neg other, rfl⟩, register, Register.ofIdId register,
          machine.popped.valueOf_assign value notHp⟩

/-- An instruction does with the stack what it does with the list. -/
theorem execute_refinesList (stacked : Stacked words machine)
    (spares : ¬instruction.AssignsPointer) :
    match (instruction.stackAction machine).apply words with
    | .ok later => Stacked later (machine.execute sink instruction).machine ∧
        (instruction.stackAction machine ≠ .keep →
          (machine.execute sink instruction).result = .ok ())
    | .error error => (machine.execute sink instruction).result = .error (.raised error) := by
  cases acts : instruction.stackAction machine with
  | keep =>
      have same := machine.execute_keep sink spares acts
      exact ⟨stacked.of_same same, fun changes => absurd rfl changes⟩
  | push value =>
      have pushed := execute_pushed sink stacked acts
      by_cases room : words.length < StackAction.capacity
      · rw [if_pos room] at pushed
        rw [StackAction.apply, if_pos room]
        exact ⟨pushed.2, fun _ => pushed.1⟩
      · rw [if_neg room] at pushed
        rw [StackAction.apply, if_neg room]
        exact pushed
  | pop =>
      have popped := execute_popped sink stacked spares acts
      cases words with
      | nil => exact popped
      | cons value older => exact ⟨popped.2.1, fun _ => popped.1⟩

end Actions

end Machine

end RegisterMachine
