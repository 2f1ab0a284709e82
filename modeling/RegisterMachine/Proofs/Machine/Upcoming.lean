/-
This file says what one step shows of a machine: the instruction that it fetches and decodes, if it
comes to that, and how the machine stopped, if it did.
-/

import RegisterMachine.Proofs.Machine.Guard

namespace RegisterMachine.Machine

/-- The instruction that the next step fetches and decodes. There is none if the machine has
stopped, if it is out of fuel and if the fetch fails. -/
def upcoming? (machine : Machine) : Option Instruction :=
  if machine.status = .running ∧ machine.fault = none then
    match machine.consumeFuel with
    | .ok fuelled => fuelled.fetch.toOption.map Prod.fst
    | .error _ => none
  else none

section Upcoming

variable {machine : Machine} {instruction : Instruction}

theorem upcoming?_eq (running : machine.IsRunning) (left : machine.fuel ≠ some 0) :
    machine.upcoming? = machine.nextInstruction.toOption := by
  rw [upcoming?, if_pos ⟨running.status, running.fault⟩, consumeFuel_eq machine left]
  dsimp only
  rw [fetch_eq, spent_nextInstruction]
  cases machine.nextInstruction <;> rfl

theorem upcoming?_exhausted {limit : UInt32} (empty : machine.fuel = some 0)
    (limited : machine.fuelLimit = some limit) : machine.upcoming? = none := by
  rw [upcoming?, consumeFuel_exhausted machine limit empty limited]
  exact ite_self none

/-- An instruction that is fetched is the next one. -/
theorem nextInstruction_of_upcoming? (found : machine.upcoming? = some instruction) :
    machine.nextInstruction = .ok instruction := by
  unfold upcoming? at found
  split at found
  · rename_i running
    by_cases empty : machine.fuel = some 0
    · unfold consumeFuel at found
      rw [empty] at found
      cases limited : machine.fuelLimit <;> simp [limited] at found
    · rw [consumeFuel_eq machine empty] at found
      dsimp only at found
      rw [fetch_eq, spent_nextInstruction] at found
      cases next : machine.nextInstruction with
      | ok other =>
          rw [next] at found
          cases found
          rfl
      | error error =>
          rw [next] at found
          cases found
  · cases found

end Upcoming

/-- What a step of a running machine shows: the instruction that it fetches, and after it how the
machine stopped, if it did. -/
inductive Shows (before : Machine) (stepped : Progress) : Prop
  | wentOn (instruction : Instruction) (found : before.upcoming? = some instruction)
      (running : stepped.machine.status = .running)
      (trace : stepped.trace = [.instruction before.pc instruction])
  | halted (instruction : Instruction) (found : before.upcoming? = some instruction)
      (opcode : instruction.opcode = .halt) (status : stepped.machine.status = .halted)
      (noFault : stepped.machine.fault = none)
      (trace : stepped.trace = [.instruction before.pc instruction, .halt before.pc])
  | failed (instruction : Instruction) (fault : Fault)
      (found : before.upcoming? = some instruction) (cause : fault.error.ofExecution)
      (recorded : stepped.machine.fault = some fault)
      (trace : stepped.trace = [.instruction before.pc instruction, .fault fault])
  | refused (fault : Fault) (nothing : before.upcoming? = none)
      (cause : fault.error.ofFetch ∨ ∃ limit, fault.error = .fuelExhausted limit)
      (recorded : stepped.machine.fault = some fault) (trace : stepped.trace = [.fault fault])

theorem step_shown {machine : Machine} (coherent : Coherent machine)
    (running : machine.IsRunning) (sink : Sink) : Shows machine (machine.step sink) := by
  rw [step_running machine sink running]
  have cases := machine.attempt_cases sink
  generalize machine.attempt sink = progress at cases ⊢
  cases cases with
  | exhausted limit empty limited =>
      exact .refused _ (upcoming?_exhausted empty limited) (.inr ⟨limit, rfl⟩) rfl rfl
  | unlimited empty unlimited =>
      -- Without a limit there is no count of fuel that could be down to zero.
      rw [coherent.unlimited unlimited] at empty
      cases empty
  | refused error left next =>
      have nothing : machine.upcoming? = none := by
        rw [upcoming?_eq running left, next]
        rfl
      exact .refused _ nothing (.inl (nextInstruction_ofFetch next)) rfl rfl
  | failed instruction error left next result =>
      have found : machine.upcoming? = some instruction := by
        rw [upcoming?_eq running left, next]
        rfl
      obtain ⟨known, same, cause⟩ :=
        execute_failsOnly machine.prepared sink instruction _ result
      cases same
      exact .failed instruction _ found cause rfl rfl
  | done instruction left next result =>
      have found : machine.upcoming? = some instruction := by
        rw [upcoming?_eq running left, next]
        rfl
      obtain ⟨status, fault, _⟩ := machine.prepared.execute_books sink instruction
      by_cases halts : instruction.opcode = .halt
      · exact .halted instruction found halts (status.trans (if_pos halts))
          (fault.trans running.fault) (if_pos halts)
      · refine .wentOn instruction found ?_ (if_neg halts)
        exact (status.trans (if_neg halts)).trans running.status

/-- A step that leaves the machine running shows the instruction that it fetched and no more. -/
theorem step_shows {machine : Machine} {sink : Sink} (coherent : Coherent machine)
    (running : machine.status = .running)
    (after : (machine.step sink).machine.status = .running) :
    ∃ instruction, machine.upcoming? = some instruction ∧
      (machine.step sink).trace = [.instruction machine.pc instruction] := by
  have stillRuns := (step_coherent coherent sink).isRunning_iff.mpr after
  cases step_shown coherent (coherent.isRunning_iff.mpr running) sink with
  | wentOn instruction found _ trace => exact ⟨instruction, found, trace⟩
  | halted _ _ _ status =>
      rw [status] at after
      cases after
  | failed _ _ _ _ recorded | refused _ _ _ recorded =>
      have noFault := stillRuns.fault
      rw [recorded] at noFault
      cases noFault

end RegisterMachine.Machine
