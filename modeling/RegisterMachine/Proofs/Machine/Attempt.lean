/-
This file lists the ways in which one step of a running machine can go, and says which machines a
machine becomes step by step. Every statement about steps and runs is derived from this list.
-/

import RegisterMachine.Proofs.Machine.Fetch

namespace RegisterMachine.Machine

/-- Only a machine that runs and has no fault executes instructions. -/
structure IsRunning (machine : Machine) : Prop where
  status : machine.status = .running
  fault : machine.fault = none

/-- A failure leaves an error status. -/
theorem fail_status (machine : Machine) (pc : UInt32) (error : RuntimeError) :
    (machine.fail pc error).1.status ≠ .running := by
  unfold fail
  dsimp only
  split
  · intro running
    cases running
  · intro running
    cases running

/-- The machine on which the next instruction takes effect. -/
def prepared (machine : Machine) : Machine :=
  machine.spent.fetched

/-- What becomes of an attempt, from the unit of fuel to the effect of the instruction. -/
inductive Attempted (machine : Machine) (sink : Sink) : Progress → Prop
  | exhausted (limit : UInt32) (empty : machine.fuel = some 0)
      (limited : machine.fuelLimit = some limit) :
      Attempted machine sink
        (machine.stop sink machine.pc [] [] (.raised (.fuelExhausted limit)))
  | unlimited (empty : machine.fuel = some 0) (unlimited : machine.fuelLimit = none) :
      Attempted machine sink (machine.stop sink machine.pc [] [] (.defect .wordOverflow))
  | refused (error : RuntimeError) (left : machine.fuel ≠ some 0)
      (next : machine.nextInstruction = .error error) :
      Attempted machine sink (machine.spent.stop sink machine.pc [] [] (.raised error))
  | failed (instruction : Instruction) (error : RuntimeError) (left : machine.fuel ≠ some 0)
      (next : machine.nextInstruction = .ok instruction)
      (result : (machine.prepared.execute sink instruction).result = .error (.raised error)) :
      Attempted machine sink
        ((machine.prepared.execute sink instruction).machine.stop
          (machine.prepared.execute sink instruction).sink machine.pc
          [.instruction machine.pc instruction]
          (machine.prepared.execute sink instruction).log (.raised error))
  | done (instruction : Instruction) (left : machine.fuel ≠ some 0)
      (next : machine.nextInstruction = .ok instruction)
      (result : (machine.prepared.execute sink instruction).result = .ok ()) :
      Attempted machine sink
        ⟨(machine.prepared.execute sink instruction).machine,
          (machine.prepared.execute sink instruction).sink,
          if instruction.opcode = .halt then
            [.instruction machine.pc instruction, .halt machine.pc]
          else [.instruction machine.pc instruction],
          (machine.prepared.execute sink instruction).log, .ok ()⟩

/-- An attempt goes in one of the listed ways. -/
theorem attempt_cases (machine : Machine) (sink : Sink) :
    Attempted machine sink (machine.attempt sink) := by
  unfold attempt
  by_cases empty : machine.fuel = some 0
  · cases limited : machine.fuelLimit with
    | none =>
        have defect : machine.consumeFuel = .error (.defect .wordOverflow) := by
          simp only [consumeFuel, empty, limited, if_true]
        rw [defect]
        exact .unlimited empty limited
    | some limit =>
        rw [consumeFuel_exhausted machine limit empty limited]
        exact .exhausted limit empty limited
  · rw [consumeFuel_eq machine empty]
    dsimp only
    rw [fetch_eq, spent_nextInstruction]
    cases next : machine.nextInstruction with
    | error error => exact .refused error empty next
    | ok instruction =>
        dsimp only
        cases result : (machine.spent.fetched.execute sink instruction).result with
        | error reason =>
            -- A handler has no defect, so the reason is an error of the machine.
            obtain ⟨error, raised, _⟩ :=
              execute_failsOnly machine.spent.fetched sink instruction reason result
            subst raised
            exact .failed instruction error empty next result
        | ok value => exact .done instruction empty next result

/-- A running machine attempts an instruction. -/
theorem step_running (machine : Machine) (sink : Sink) (running : machine.IsRunning) :
    machine.step sink = machine.attempt sink := by
  simp only [step, running.fault, running.status, if_true]

/-- A machine that does not run is left alone. -/
theorem step_stopped (machine : Machine) (sink : Sink) (stopped : ¬machine.IsRunning) :
    (machine.step sink).machine = machine ∧ (machine.step sink).sink = sink := by
  unfold step
  split
  · exact ⟨rfl, rfl⟩
  · rename_i noFault
    have notRunning : machine.status ≠ .running := by
      intro status
      exact stopped ⟨status, noFault⟩
    rw [if_neg notRunning]
    exact ⟨rfl, rfl⟩

/-- A machine that does not run executes nothing. -/
theorem step_stopped_trace (machine : Machine) (sink : Sink) (stopped : ¬machine.IsRunning) :
    (machine.step sink).trace = [] := by
  unfold step
  split
  · rfl
  · rename_i noFault
    have notRunning : machine.status ≠ .running := by
      intro status
      exact stopped ⟨status, noFault⟩
    rw [if_neg notRunning]

/-- A step that succeeds on a machine that runs has executed the next instruction. -/
theorem step_ok {machine : Machine} {sink : Sink} (status : machine.status = .running)
    (succeeded : (machine.step sink).result = .ok ()) :
    machine.fault = none ∧ ∃ instruction, machine.nextInstruction = .ok instruction ∧
      (machine.prepared.execute sink instruction).result = .ok () ∧
      (machine.step sink).machine = (machine.prepared.execute sink instruction).machine := by
  have noFault : machine.fault = none := by
    cases stopped : machine.fault with
    | none => rfl
    | some fault =>
        rw [step, stopped] at succeeded
        cases succeeded
  refine ⟨noFault, ?_⟩
  rw [step_running machine sink ⟨status, noFault⟩] at succeeded ⊢
  have cases := machine.attempt_cases sink
  generalize machine.attempt sink = progress at succeeded cases ⊢
  cases cases with
  | exhausted | unlimited | refused | failed => cases succeeded
  | done instruction left next result => exact ⟨instruction, next, result, rfl⟩

/-- A machine that runs and has fuel executes its next instruction. -/
theorem step_executes {machine : Machine} {sink : Sink} {instruction : Instruction}
    (running : machine.IsRunning) (left : machine.fuel ≠ some 0)
    (next : machine.nextInstruction = .ok instruction)
    (result : (machine.prepared.execute sink instruction).result = .ok ()) :
    (machine.step sink).result = .ok () ∧
      (machine.step sink).machine = (machine.prepared.execute sink instruction).machine := by
  have fetched : machine.spent.fetch = .ok (instruction, machine.prepared) := by
    rw [fetch_eq, spent_nextInstruction, next]
    rfl
  rw [step_running machine sink running, attempt, consumeFuel_eq machine left]
  dsimp only
  rw [fetched]
  dsimp only
  rw [result]
  exact ⟨rfl, rfl⟩

/-- The machines that a machine becomes step by step, if each step is allowed. -/
inductive SteppedBy (allowed : Machine → Sink → Prop) (start : Machine) : Machine → Prop
  | start : SteppedBy allowed start start
  | step {machine : Machine} (sink : Sink) (earlier : SteppedBy allowed start machine)
      (admitted : allowed machine sink) : SteppedBy allowed start (machine.step sink).machine

end RegisterMachine.Machine
