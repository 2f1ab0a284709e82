/-
This file says that nothing a host does with a machine ends in a defect. Each place at which a
defect could arise is reached only inside its range, and what lies outside the range is an error.
-/

import RegisterMachine.Proofs.Machine.Walk
import RegisterMachine.Proofs.Reports

namespace RegisterMachine

/-- A computation that succeeds exactly under a condition and reports the error otherwise. -/
structure Guards {α : Type} (condition : Prop) (error : RuntimeError)
    (computation : Except (Abort RuntimeError) α) : Prop where
  inside : condition → ∃ value, computation = .ok value
  outside : ¬condition → computation = .error (.raised error)

/-- A computation that is settled by one test. -/
theorem Guards.of_test {α : Type} {condition : Prop} [Decidable condition] {error : RuntimeError}
    {value : α} {computation : Except (Abort RuntimeError) α}
    (tested : computation = if condition then .ok value else .error (.raised error)) :
    Guards condition error computation where
  inside holds := ⟨value, by rw [tested, if_pos holds]⟩
  outside fails := by rw [tested, if_neg fails]

open RuntimeError (ofFetch ofExecution)

/-- An id is that of a register exactly if it is one of the first eleven numbers. -/
theorem Register.ofId?_isSome (id : UInt8) : (ofId? id).isSome ↔ id.toNat < 11 := by
  rw [ofId?, isSome_getElem?]
  rfl

namespace Machine

/-- A fetch fails only with the errors of a fetch. -/
theorem fetch_failsOnly (machine : Machine) : FailsOnly ofFetch machine.fetch := by
  rw [fetch_eq]
  cases next : machine.nextInstruction with
  | ok instruction => exact .ok _
  | error error => exact .raised (nextInstruction_ofFetch next)

theorem fetch_inside {machine after : Machine} {instruction : Instruction}
    (fetched : machine.fetch = .ok (instruction, after)) :
    machine.pc.toNat + 8 ≤ machine.codeEnd.toNat ∧ machine.pc.toNat + 8 ≤ imageSize ∧
      after.pc.toNat = machine.pc.toNat + 8 := by
  rw [fetch_eq] at fetched
  cases next : machine.nextInstruction with
  | error error =>
      rw [next] at fetched
      cases fetched
  | ok found =>
      rw [next] at fetched
      cases fetched
      obtain ⟨inCode, inImage⟩ := nextInstruction_inside next
      exact ⟨inCode, inImage, fetched_pc next⟩

theorem readRegister_guards (machine : Machine) (id : UInt8) :
    Guards (id.toNat < 11) (.registerNotFound id) (machine.readRegister id) where
  inside known := by
    obtain ⟨register, named⟩ := Option.isSome_iff_exists.mp ((Register.ofId?_isSome id).mpr known)
    exact ⟨machine.valueOf register, by rw [readRegister_eq, named]⟩
  outside unknown := by
    have named := Option.not_isSome_iff_eq_none.mp (mt (Register.ofId?_isSome id).mp unknown)
    rw [readRegister_eq, named]

/-- A register whose value is kept in the file has a place there. -/
theorem inFile_of_ofId? {id : UInt8} {register : Register}
    (named : Register.ofId? id = some register) :
    register = .sp ∨ register = .bp ∨ register = .hp ∨ id.toNat < 8 := by
  rw [Register.ofId?_eq_some named]
  cases register <;> decide

theorem consumeFuel_guards {machine : Machine} {limit : UInt32}
    (limited : machine.fuelLimit = some limit) :
    Guards (machine.fuel ≠ some 0) (.fuelExhausted limit) machine.consumeFuel where
  inside left := ⟨machine.spent, machine.consumeFuel_eq left⟩
  outside empty := machine.consumeFuel_exhausted limit (not_not.mp empty) limited

theorem loading_reports (machine : Machine) (bytes : List UInt8) :
    (machine.loading bytes).value.result = .ok () ∨
      ∃ reason, (machine.loading bytes).value.result =
        .error (.raised (.invalidBytecode reason)) := by
  rw [loading_eq]
  cases (Container.ofLoadable bytes).value with
  | ok container => exact .inl rfl
  | error reason => exact .inr ⟨reason, rfl⟩

/-- The answer of a machine is no defect. -/
theorem verdict_reports (machine : Machine) : Reports machine.verdict := by
  unfold verdict
  split
  · exact .raised _
  · exact .ok ()

theorem step_reports {machine : Machine} (coherent : Coherent machine) (sink : Sink) :
    Reports (machine.step sink).result := by
  rw [step_result coherent sink]
  exact verdict_reports _

/-- At the end of a run only the output can fail. -/
theorem finish_reports (machine : Machine) (sink : Sink) (trace : Array TraceEvent)
    (log : Array Diagnostic) : Reports (machine.finish sink trace log).result := by
  unfold finish
  cases sink.flush with
  | ok _ => exact .ok ()
  | error reason => exact .raised _

theorem runAfter_reports {record : Bool} {trace : Array TraceEvent} {log : Array Diagnostic}
    {machine : Machine} {sink : Sink} {steps : Nat} {progress : Progress}
    (coherent : Coherent machine)
    (ended : runAfter record trace log machine sink steps = some progress) :
    Reports progress.result := by
  induction steps generalizing trace log machine sink with
  | zero =>
      unfold runAfter at ended
      split at ended
      · cases ended
      · cases ended
        exact machine.finish_reports sink trace log
  | succ steps inductionHypothesis =>
      unfold runAfter at ended
      split at ended
      · have reports := step_reports coherent sink
        dsimp only at ended
        split at ended
        · exact inductionHypothesis (step_coherent coherent sink) ended
        · rename_i reason stopped
          cases ended
          rw [stopped] at reports
          exact reports
      · cases ended
        exact machine.finish_reports sink trace log

/-- However long a run is, it ends in no defect. -/
theorem run_reports {record : Bool} {machine : Machine} {sink : Sink} {steps : Nat}
    {progress : Progress} (coherent : Coherent machine)
    (ended : machine.run record steps sink = some progress) : Reports progress.result := by
  unfold run at ended
  split at ended
  · cases ended
    exact .raised _
  · exact runAfter_reports coherent ended

/-- What a host can rely on: every call ends with a result or with an error that is reported, and
each access is made exactly inside its range. -/
structure Guarded (machine : Machine) : Prop where
  load : ∀ bytes, (machine.loading bytes).value.result = .ok () ∨
    ∃ reason, (machine.loading bytes).value.result = .error (.raised (.invalidBytecode reason))
  step : ∀ sink, (machine.step sink).result = .ok () ∨
    ∃ fault, (machine.step sink).result = .error (.raised fault) ∧
      (machine.step sink).machine.fault = some fault
  run : ∀ record steps sink progress, machine.run record steps sink = some progress →
    progress.result = .ok () ∨ ∃ fault, progress.result = .error (.raised fault)
  allocate : ∀ text, Guards (machine.hp.toNat + ((textBytes text).length + 1) ≤ 0x4C0000)
    (.heapOutOfBounds ((textBytes text).length + 1)) (machine.allocateText text).value
  heapPointer : ∀ text address after,
    (machine.allocateText text).value = .ok (address, after) →
      after.hp.toNat = machine.hp.toNat + ((textBytes text).length + 1)
  fuel : ∀ limit, machine.fuelLimit = some limit →
    Guards (machine.fuel ≠ some 0) (.fuelExhausted limit) machine.consumeFuel
  unlimited : machine.fuelLimit = none → machine.consumeFuel = .ok machine
  fetch : FailsOnly ofFetch machine.fetch
  counter : ∀ instruction after, machine.fetch = .ok (instruction, after) →
    machine.pc.toNat + 8 ≤ machine.codeEnd.toNat ∧ machine.pc.toNat + 8 ≤ 0x500000 ∧
      after.pc.toNat = machine.pc.toNat + 8
  execute : ∀ sink instruction, FailsOnly ofExecution (machine.execute sink instruction).result
  register : ∀ id, Guards (id.toNat < 11) (.registerNotFound id) (machine.readRegister id)
  registerFile : ∀ id register, Register.ofId? id = some register →
    register = .sp ∨ register = .bp ∨ register = .hp ∨ id.toNat < 8
  read : ∀ address length, Guards (address.toNat + length ≤ 0x500000)
    (.memoryOutOfBounds address) (machine.memory.read address length)
  write : ∀ address bytes, Guards (address.toNat + bytes.length ≤ 0x500000)
    (.memoryOutOfBounds address) (machine.memory.write address bytes)
  text : ∀ address, Guards (address.toNat < 0x500000)
    (.memoryOutOfBounds address) (machine.memory.readText address)

/-- No sequence of loads, steps, runs and allocations, with or without limited fuel, leads a
machine to a defect. -/
theorem session_guarded {held : Option Container} {machine : Machine}
    (session : Session held machine) : Guarded machine where
  load := machine.loading_reports
  step sink := by
    rw [step_result session.coherent sink, verdict]
    cases recorded : (machine.step sink).machine.fault with
    | none => exact .inl rfl
    | some fault => exact .inr ⟨fault, rfl, rfl⟩
  run record steps sink progress ended := by
    rcases (run_reports session.coherent ended).result with ⟨value, done⟩ | failed
    · exact .inl done
    · exact .inr failed
  allocate text := .of_test (machine.allocateText_eq text)
  heapPointer text address after allocated := by
    obtain ⟨fits, _, same⟩ := allocateText_ok allocated
    rw [same]
    exact stored_hp fits
  fuel limit limited := consumeFuel_guards limited
  unlimited noLimit := by
    have noFuel := session.coherent.unlimited noLimit
    have left : machine.fuel ≠ some 0 := by
      rw [noFuel]
      exact (Option.some_ne_none 0).symm
    rw [machine.consumeFuel_eq left, spent_unlimited noFuel]
  fetch := machine.fetch_failsOnly
  counter instruction after fetched := fetch_inside fetched
  execute := machine.execute_failsOnly
  register := machine.readRegister_guards
  registerFile id register named := inFile_of_ofId? named
  read address length := .of_test (machine.memory.read_eq address length)
  write address bytes := .of_test (machine.memory.write_eq address bytes)
  text address := .of_test (machine.memory.readText_eq address)

/-- A machine with one unit of fuel reads a word of which one byte is past the end of the image. The
fault is recorded, and the machine is guarded as before. -/
theorem session_guarded_pastImage :
    let container := Container.ofSections ⟨[0x02, 0, 0, 0xFD, 0xFF, 0x4F, 0, 0x04], [], []⟩ 0
    let failed := (((empty (some 1)).started container).step .unlimited).machine
    Session (some container) failed ∧
      failed.fault = some ⟨.memoryOutOfBounds 0x4FFFFD, 0⟩ ∧ Guarded failed := by
  intro container failed
  have accepted : (Container.ofLoadable container.toBytes).value = .ok container := by
    decide +kernel
  have loaded : ((empty (some 1)).load container.toBytes).value =
      .ok ((empty (some 1)).started container) := by
    rw [load_eq, accepted]
  have session : Session (some container) failed :=
    .step .unlimited (.load container.toBytes container (.empty (some 1)) accepted loaded)
  have recorded : failed.fault = some ⟨.memoryOutOfBounds 0x4FFFFD, 0⟩ := by decide +kernel
  exact ⟨session, recorded, session_guarded session⟩

end Machine

end RegisterMachine
