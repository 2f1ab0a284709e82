/-
This file says what programs cannot change: the image below the stack, the heap pointer, the end
of the code and the fuel limit. One instruction keeps them, so steps and runs do.
-/

import RegisterMachine.Proofs.Machine.Assignment
import RegisterMachine.Proofs.Machine.Run

namespace RegisterMachine

/-- What a step leaves as it is, whether it succeeds or not. -/
structure Machine.StepFrame (before after : Machine) : Prop where
  hp : after.hp = before.hp
  codeEnd : after.codeEnd = before.codeEnd
  fuelLimit : after.fuelLimit = before.fuelLimit
  belowStack : ∀ position, position < Segment.stack.base.toNat →
    after.memory.byteAt position = before.memory.byteAt position

/-- What an instruction leaves as it is: it neither records faults nor takes fuel. -/
structure Machine.Frame (before after : Machine) : Prop extends StepFrame before after where
  fault : after.fault = before.fault
  fuel : after.fuel = before.fuel

namespace Machine

theorem StepFrame.refl (machine : Machine) : StepFrame machine machine :=
  ⟨rfl, rfl, rfl, fun _ _ => rfl⟩

theorem StepFrame.trans {first second third : Machine} (earlier : StepFrame first second)
    (later : StepFrame second third) : StepFrame first third where
  hp := later.hp.trans earlier.hp
  codeEnd := later.codeEnd.trans earlier.codeEnd
  fuelLimit := later.fuelLimit.trans earlier.fuelLimit
  belowStack position below :=
    (later.belowStack position below).trans (earlier.belowStack position below)

/-- A change of other registers, of flags or of the status keeps the frame. -/
theorem Frame.of_eq {before after : Machine} (hp : after.hp = before.hp)
    (codeEnd : after.codeEnd = before.codeEnd) (fuelLimit : after.fuelLimit = before.fuelLimit)
    (memory : after.memory = before.memory) (fault : after.fault = before.fault)
    (fuel : after.fuel = before.fuel) : Frame before after :=
  ⟨⟨hp, codeEnd, fuelLimit, fun _ _ => by rw [memory]⟩, fault, fuel⟩

theorem Frame.refl (machine : Machine) : Frame machine machine :=
  .of_eq rfl rfl rfl rfl rfl rfl

theorem Frame.trans {first second third : Machine} (earlier : Frame first second)
    (later : Frame second third) : Frame first third where
  toStepFrame := earlier.toStepFrame.trans later.toStepFrame
  fault := later.fault.trans earlier.fault
  fuel := later.fuel.trans earlier.fuel

theorem pushed_frame (machine : Machine) (value : UInt32)
    (low : Segment.stack.base.toNat + stackSlot ≤ machine.sp.toNat)
    (high : machine.sp.toNat ≤ Segment.stack.limit.toNat) :
    Frame machine (machine.pushed value) := by
  refine ⟨⟨rfl, rfl, rfl, ?_⟩, rfl, rfl⟩
  intro position below
  apply machine.pushed_memory value low high
  have slot : machine.slotBelow.toNat = machine.sp.toNat - stackSlot :=
    pushedPointer_toNat machine.sp (Nat.le_trans (by decide) low)
  omega

/-- A register, the program counter, the flags and the status are outside the frame. -/
theorem Changed.frame {machine after : Machine} {instruction : Instruction}
    (changed : Changed machine instruction after) : Frame machine after := by
  cases changed with
  | register => exact .of_eq rfl rfl rfl rfl rfl rfl
  | state => exact .of_eq rfl rfl rfl rfl rfl rfl

/-- An access to the stack writes at most one slot of it. -/
theorem StackAccess.frame {machine after : Machine} {instruction : Instruction}
    {slot pointer : UInt32} (access : StackAccess machine instruction slot pointer after) :
    Frame machine after := by
  cases access with
  | pushed id value opcode dest found low high => exact machine.pushed_frame value low high
  | called target opcode found low high =>
      exact (machine.pushed_frame machine.pc low high).trans (.of_eq rfl rfl rfl rfl rfl rfl)
  | popped => exact .of_eq rfl rfl rfl rfl rfl rfl
  | returned => exact .of_eq rfl rfl rfl rfl rfl rfl

/-- Every instruction keeps the frame, whether it succeeds or not. -/
theorem execute_frame (machine : Machine) (sink : Sink) (instruction : Instruction) :
    Frame machine (machine.execute sink instruction).machine := by
  cases uses : instruction.opcode.usesStack with
  | false => exact (machine.execute_changed sink uses).frame
  | true =>
      cases result : (machine.execute sink instruction).result with
      | ok value =>
          obtain ⟨_, _, access⟩ := execute_stackAccess uses result
          exact access.frame
      | error reason =>
          obtain ⟨error, raised, _⟩ := execute_failsOnly machine sink instruction reason result
          rw [raised] at result
          obtain ⟨⟨flags, same, _⟩, _⟩ := execute_failed result
          rw [same]
          exact .of_eq rfl rfl rfl rfl rfl rfl

theorem prepared_frame (machine : Machine) : StepFrame machine machine.prepared :=
  ⟨rfl, rfl, rfl, fun _ _ => rfl⟩

/-- Stopping sets the status and the fault only. -/
theorem stop_frame (machine : Machine) (sink : Sink) (pc : UInt32) (trace : List TraceEvent)
    (log : List Diagnostic) (reason : Abort RuntimeError) :
    StepFrame machine (machine.stop sink pc trace log reason).machine := by
  cases reason <;> exact ⟨rfl, rfl, rfl, fun _ _ => rfl⟩

theorem attempt_frame (machine : Machine) (sink : Sink) :
    StepFrame machine (machine.attempt sink).machine := by
  have cases := machine.attempt_cases sink
  generalize machine.attempt sink = progress at cases ⊢
  cases cases with
  | exhausted limit | unlimited => exact machine.stop_frame _ _ _ _ _
  | refused error =>
      have spent : StepFrame machine machine.spent := ⟨rfl, rfl, rfl, fun _ _ => rfl⟩
      exact spent.trans (machine.spent.stop_frame _ _ _ _ _)
  | failed instruction error =>
      have executed := machine.prepared.execute_frame sink instruction
      exact (machine.prepared_frame.trans executed.toStepFrame).trans (stop_frame _ _ _ _ _ _)
  | done instruction =>
      have executed := machine.prepared.execute_frame sink instruction
      exact machine.prepared_frame.trans executed.toStepFrame

/-- A step keeps the frame. -/
theorem step_frame (machine : Machine) (sink : Sink) :
    StepFrame machine (machine.step sink).machine := by
  by_cases running : machine.IsRunning
  · rw [step_running machine sink running]
    exact machine.attempt_frame sink
  · rw [(step_stopped machine sink running).1]
    exact .refl machine

/-- A run keeps the frame, however many steps it takes. -/
theorem run_frame (record : Bool) (steps : Nat) (machine : Machine) (sink : Sink)
    (progress : Progress) (ended : run record steps machine sink = some progress) :
    StepFrame machine progress.machine :=
  run_keeps (fun later sink frame => frame.trans (later.step_frame sink)) (.refl machine) ended

end Machine

end RegisterMachine
