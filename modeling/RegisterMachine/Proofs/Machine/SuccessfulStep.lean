/-
This file says what a step that succeeds changes, and that it leaves everything else as it was.
-/

import RegisterMachine.Proofs.Machine.Bookkeeping
import RegisterMachine.Proofs.Machine.Frame

namespace RegisterMachine

namespace Opcode

/-- The opcodes that store a word below the top of the stack. -/
def pushes : Opcode → Bool
  | push | call => true
  | _ => false

/-- The opcodes that take a word from the top of the stack. -/
def pops : Opcode → Bool
  | pop | ret => true
  | _ => false

theorem usesStack_eq (opcode : Opcode) : opcode.usesStack = (opcode.pushes || opcode.pops) := by
  cases opcode <;> rfl

theorem usesStack_of_pushes {opcode : Opcode} (pushes : opcode.pushes) : opcode.usesStack := by
  rw [usesStack_eq, pushes, Bool.true_or]

theorem usesStack_of_pops {opcode : Opcode} (pops : opcode.pops) : opcode.usesStack := by
  rw [usesStack_eq, pops, Bool.or_true]

/-- No other handler has an opcode whose result sets flags. -/
theorem setsResult_alone {opcode : Opcode} (sets : opcode.setsResult) :
    opcode.prints = false ∧ ¬(opcode = .mov ∨ opcode = .loadAddr) ∧ opcode ≠ .cmp ∧
      opcode.jumps = false ∧ opcode.usesStack = false ∧ opcode ≠ .halt := by
  revert sets
  cases opcode <;> decide

end Opcode

namespace Instruction

/-- The register that an instruction names as its destination is changed, if its opcode does so. -/
def Assigns (instruction : Instruction) (register : Register) : Prop :=
  instruction.opcode.assigns ∧ instruction.dest = .registerDirect register.id

/-- The program counter is led elsewhere than behind the instruction: by a call, by a return or by a
jump whose condition holds. -/
def Transfers (instruction : Instruction) (flags : Flags) : Prop :=
  instruction.opcode.jumps ∧ Machine.condition flags instruction.opcode ∨
    instruction.opcode = .call ∨ instruction.opcode = .ret

end Instruction

/-- What a step that succeeds in executing an instruction changes of a machine and of its output. -/
structure SuccessfulStep (instruction : Instruction) (before : Machine) (sinkBefore : Sink)
    (after : Machine) (sinkAfter : Sink) : Prop where
  registers : ∀ register, register ≠ .sp → ¬instruction.Assigns register →
    after.valueOf register = before.valueOf register
  heapPointer : after.hp = before.hp
  pushed : instruction.opcode.pushes → after.sp.toNat + 4 = before.sp.toNat
  popped : instruction.opcode.pops → ¬instruction.Assigns .sp →
    after.sp.toNat = before.sp.toNat + 4
  stackPointer : instruction.opcode.usesStack = false → ¬instruction.Assigns .sp →
    after.sp = before.sp
  /-- Only the four bytes from the new stack pointer on are written, by a push or a call. -/
  memory : ∀ position,
    ¬(instruction.opcode.pushes ∧ after.sp.toNat ≤ position ∧ position < after.sp.toNat + 4) →
      after.memory.byteAt position = before.memory.byteAt position
  comparison : instruction.opcode.setsResult = false → instruction.opcode ≠ .cmp →
    after.flags.zero = before.flags.zero ∧ after.flags.negative = before.flags.negative
  /-- The result is what the destination holds afterwards; its sign is the highest of its bits. -/
  result : instruction.opcode.setsResult → ∃ register, instruction.Assigns register ∧
    after.flags.zero = decide (after.valueOf register = 0) ∧
    after.flags.negative = decide (0x80000000 ≤ (after.valueOf register).toNat)
  carries : instruction.opcode ≠ .add → instruction.opcode ≠ .sub →
    after.flags.carry = before.flags.carry ∧ after.flags.overflow = before.flags.overflow
  counter : ¬instruction.Transfers before.flags → after.pc.toNat = before.pc.toNat + 8
  status : instruction.opcode ≠ .halt → after.status = before.status
  limits : after.codeEnd = before.codeEnd ∧ after.fuelLimit = before.fuelLimit ∧
    after.fault = before.fault
  output : ∃ text, sinkAfter = sinkBefore.extended text ∧
    (instruction.opcode = .printChr → text.length = 1) ∧
    (instruction.opcode.prints = false → text = [])

namespace Machine

variable {machine after : Machine} {sink sinkAfter : Sink} {instruction : Instruction}

/-- The registers other than the stack pointer depend on three parts of a machine. -/
theorem valueOf_congr {register : Register} (notSp : register ≠ .sp)
    (general : after.general = machine.general) (bp : after.bp = machine.bp)
    (hp : after.hp = machine.hp) : after.valueOf register = machine.valueOf register := by
  cases register with
  | sp => exact absurd rfl notSp
  | bp => exact bp
  | hp => exact hp
  | r0 | r1 | r2 | r3 | r4 | r5 | r6 | r7 => simp only [valueOf, general]

/-- A register that an instruction does not assign is not its destination. -/
theorem ne_of_not_assigns {named register : Register} (assigns : instruction.opcode.assigns)
    (dest : instruction.dest = .registerDirect named.id) (other : ¬instruction.Assigns register) :
    named ≠ register := by
  rintro rfl
  exact other ⟨assigns, dest⟩

namespace StackAccess

variable {slot pointer : UInt32} (access : StackAccess machine instruction slot pointer after)
include access

theorem registers {register : Register} (notSp : register ≠ .sp)
    (other : ¬instruction.Assigns register) :
    after.valueOf register = machine.valueOf register := by
  cases access with
  | pushed | called | returned => exact valueOf_congr notSp rfl rfl rfl
  | popped named opcode dest =>
      have different := ne_of_not_assigns (by rw [opcode]; rfl) dest other
      rw [valueOf_assign_ne _ _ different]
      exact valueOf_congr notSp rfl rfl rfl

theorem pushes (pushes : instruction.opcode.pushes) : after.sp.toNat + 4 = machine.sp.toNat := by
  cases access with
  | pushed _ _ _ _ _ low | called _ _ _ low =>
      have room : 4 ≤ machine.sp.toNat := Nat.le_trans (by decide) low
      have slot : machine.slotBelow.toNat = machine.sp.toNat - 4 :=
        pushedPointer_toNat machine.sp room
      change machine.slotBelow.toNat + 4 = machine.sp.toNat
      omega
  | popped _ opcode | returned opcode =>
      rw [opcode] at pushes
      cases pushes

theorem pops (pops : instruction.opcode.pops) (spares : ¬instruction.Assigns .sp) :
    after.sp.toNat = machine.sp.toNat + 4 := by
  cases access with
  | pushed _ _ opcode | called _ opcode =>
      rw [opcode] at pops
      cases pops
  | popped named opcode dest _ high =>
      have different := ne_of_not_assigns (by rw [opcode]; rfl) dest spares
      have pointer := poppedPointer_toNat machine.sp high
      rwa [assign, if_neg different]
  | returned _ high => exact poppedPointer_toNat machine.sp high

theorem memory {position : Nat}
    (outside : ¬(instruction.opcode.pushes ∧ after.sp.toNat ≤ position ∧
      position < after.sp.toNat + 4)) :
    after.memory.byteAt position = machine.memory.byteAt position := by
  cases access with
  | pushed _ _ opcode _ _ low high | called _ opcode _ low high =>
      apply pushed_memory machine _ low high
      intro inside
      exact outside ⟨by rw [opcode]; rfl, inside⟩
  | popped | returned => rfl

end StackAccess

namespace Executed

variable (executed : Executed machine sink instruction after sinkAfter)
include executed

theorem registers {register : Register} (notSp : register ≠ .sp)
    (other : ¬instruction.Assigns register) :
    after.valueOf register = machine.valueOf register := by
  cases executed with
  | printed | ignored | compared | jumped | passed | halted => rfl
  | assigned named value opcode dest =>
      exact valueOf_assign_ne _ _ (ne_of_not_assigns (Opcode.assigns_of_moves opcode) dest other)
  | computed named result flags sets dest =>
      exact valueOf_assign_ne _ _ (ne_of_not_assigns (Opcode.assigns_of_setsResult sets) dest other)
  | accessed access => exact access.registers notSp other

theorem stackPointer (others : instruction.opcode.usesStack = false)
    (spares : ¬instruction.Assigns .sp) : after.sp = machine.sp := by
  cases executed with
  | printed | ignored | compared | jumped | passed | halted => rfl
  | assigned named value opcode dest =>
      exact if_neg (ne_of_not_assigns (Opcode.assigns_of_moves opcode) dest spares)
  | computed named result flags sets dest =>
      exact if_neg (ne_of_not_assigns (Opcode.assigns_of_setsResult sets) dest spares)
  | accessed access =>
      rw [access.usesStack] at others
      cases others

theorem memory {position : Nat}
    (outside : ¬(instruction.opcode.pushes ∧ after.sp.toNat ≤ position ∧
      position < after.sp.toNat + 4)) :
    after.memory.byteAt position = machine.memory.byteAt position := by
  cases executed with
  | printed | ignored | assigned | computed | compared | jumped | passed | halted => rfl
  | accessed access => exact access.memory outside

/-- Flags are set by results and by comparisons. -/
theorem flags (noResult : instruction.opcode.setsResult = false)
    (noComparison : instruction.opcode ≠ .cmp) : after.flags = machine.flags := by
  cases executed with
  | printed | ignored | assigned | jumped | passed | halted => rfl
  | computed _ _ _ sets =>
      rw [sets] at noResult
      cases noResult
  | compared opcode => exact absurd opcode noComparison
  | accessed access => cases access <;> rfl

/-- A result that sets flags is what the destination holds. -/
theorem result (sets : instruction.opcode.setsResult) :
    ∃ register, instruction.Assigns register ∧
      after.flags.zero = decide (after.valueOf register = 0) ∧
      after.flags.negative = decide (0x80000000 ≤ (after.valueOf register).toNat) := by
  cases executed with
  | computed named result flags _ dest writable =>
      have held : { machine.assign named result with
          flags := flags.afterResult result }.valueOf named = result :=
        machine.valueOf_assign result writable
      refine ⟨named, ⟨Opcode.assigns_of_setsResult sets, dest⟩, ?_⟩
      rw [held]
      exact ⟨rfl, rfl⟩
  | printed _ kind => exact absurd kind (Bool.eq_false_iff.mp (Opcode.setsResult_alone sets).1)
  | ignored kind => exact absurd (.inl kind) (Opcode.setsResult_alone sets).2.1
  | assigned _ _ kind => exact absurd kind (Opcode.setsResult_alone sets).2.1
  | compared kind => exact absurd kind (Opcode.setsResult_alone sets).2.2.1
  | jumped _ kind | passed kind =>
      exact absurd kind (Bool.eq_false_iff.mp (Opcode.setsResult_alone sets).2.2.2.1)
  | accessed access =>
      exact absurd access.usesStack (Bool.eq_false_iff.mp (Opcode.setsResult_alone sets).2.2.2.2.1)
  | halted kind => exact absurd kind (Opcode.setsResult_alone sets).2.2.2.2.2

theorem carries (noSum : instruction.opcode ≠ .add) (noDifference : instruction.opcode ≠ .sub) :
    after.flags.carry = machine.flags.carry ∧ after.flags.overflow = machine.flags.overflow := by
  cases executed with
  | printed | ignored | assigned | compared | jumped | passed | halted => exact ⟨rfl, rfl⟩
  | computed named result flags _ _ _ others =>
      rw [others noSum noDifference]
      exact ⟨rfl, rfl⟩
  | accessed access => cases access <;> exact ⟨rfl, rfl⟩

theorem counter (stays : ¬instruction.Transfers machine.flags) : after.pc = machine.pc := by
  cases executed with
  | printed | ignored | assigned | computed | compared | passed | halted => rfl
  | jumped target jumps taken => exact absurd (.inl ⟨jumps, taken⟩) stays
  | accessed access =>
      cases access with
      | pushed | popped => rfl
      | called _ opcode => exact absurd (.inr (.inl opcode)) stays
      | returned opcode => exact absurd (.inr (.inr opcode)) stays

theorem output : ∃ text, sinkAfter = sink.extended text ∧
    (instruction.opcode = .printChr → text.length = 1) ∧
    (instruction.opcode.prints = false → text = []) := by
  cases executed with
  | printed text prints one =>
      refine ⟨text, rfl, one, ?_⟩
      intro silent
      rw [prints] at silent
      cases silent
  | ignored kind | assigned _ _ kind | computed _ _ _ kind | compared kind | jumped _ kind
  | passed kind | halted kind =>
      refine ⟨[], sink.extended_nil.symm, ?_, fun _ => rfl⟩
      intro character
      rw [character] at kind
      exact absurd kind (by decide)
  | accessed access =>
      refine ⟨[], sink.extended_nil.symm, ?_, fun _ => rfl⟩
      intro character
      have kind := access.usesStack
      rw [character] at kind
      exact absurd kind (by decide)

end Executed

/-- The instruction at the program counter, once it has succeeded, was a successful step. -/
theorem execute_successfulStep (next : machine.nextInstruction = .ok instruction)
    (result : (machine.prepared.execute sink instruction).result = .ok ()) :
    SuccessfulStep instruction machine sink (machine.prepared.execute sink instruction).machine
      (machine.prepared.execute sink instruction).sink := by
  have executed := execute_executed result
  obtain ⟨status, fault, codeEnd, fuelLimit, _⟩ := machine.prepared.execute_books sink instruction
  refine {
    registers := fun register notSp other => executed.registers notSp other
    heapPointer := (machine.prepared.execute_frame sink instruction).hp
    pushed := ?_
    popped := ?_
    stackPointer := fun others spares => executed.stackPointer others spares
    memory := fun position outside => executed.memory outside
    comparison := ?_
    result := fun sets => executed.result sets
    carries := fun noSum noDifference => executed.carries noSum noDifference
    counter := ?_
    status := fun other => status.trans (if_neg other)
    limits := ⟨codeEnd, fuelLimit, fault⟩
    output := executed.output }
  · intro pushes
    obtain ⟨_, _, access⟩ := execute_stackAccess (Opcode.usesStack_of_pushes pushes) result
    exact access.pushes pushes
  · intro pops spares
    obtain ⟨_, _, access⟩ := execute_stackAccess (Opcode.usesStack_of_pops pops) result
    exact access.pops pops spares
  · intro noResult noComparison
    rw [executed.flags noResult noComparison]
    exact ⟨rfl, rfl⟩
  · intro stays
    rw [executed.counter stays]
    exact fetched_pc next

/-- A step that succeeds executes the instruction at the program counter, which changes no more of
the machine and of its output than belongs to its opcode. -/
theorem step_successful (machine : Machine) (sink : Sink) (running : machine.status = .running)
    (succeeded : (machine.step sink).result = .ok ()) :
    ∃ instruction, machine.nextInstruction = .ok instruction ∧
      SuccessfulStep instruction machine sink (machine.step sink).machine
        (machine.step sink).sink := by
  have noFault : machine.fault = none := by
    cases stopped : machine.fault with
    | none => rfl
    | some fault =>
        rw [step, stopped] at succeeded
        cases succeeded
  rw [step_running machine sink ⟨running, noFault⟩] at succeeded ⊢
  have cases := machine.attempt_cases sink
  generalize machine.attempt sink = progress at succeeded cases ⊢
  cases cases with
  | exhausted | unlimited | refused | failed => cases succeeded
  | done instruction left next result =>
      exact ⟨instruction, next, execute_successfulStep next result⟩

/-- A push of the stack pointer stores the value that it had before the push. -/
theorem step_successful_pushStackPointer :
    let machine := ofCode [0x18, 8, 0, 0, 0, 0, 0, 0]
    ∃ instruction, machine.nextInstruction = .ok instruction ∧
      SuccessfulStep instruction machine .unlimited (machine.step .unlimited).machine
        (machine.step .unlimited).sink :=
  step_successful _ _ rfl (by decide +kernel)

end Machine

end RegisterMachine
