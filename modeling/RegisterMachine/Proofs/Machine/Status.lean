/-
This file says how the status of a machine, its fault and the class of the fault go together in
every session, and that a machine that stopped stays as it is until a container is loaded.
-/

import RegisterMachine.Proofs.Machine.Bookkeeping
import RegisterMachine.Proofs.Machine.Session

namespace RegisterMachine

namespace Machine

/-- The records of how a machine stands agree: it has a fault exactly in an error status, and the
status is fatal exactly for a fault of the fatal class. -/
structure StatusAgrees (machine : Machine) : Prop where
  faulted : machine.fault.isSome ↔ machine.status = .fatalError ∨ machine.status = .softError
  fatal : machine.status = .fatalError ↔
    ∃ fault, machine.fault = some fault ∧ fault.error.code.severity = .fatal

/-- What holds of every machine of a host: the records of its status agree, and it counts fuel
exactly if its fuel is limited. -/
structure Coherent (machine : Machine) : Prop extends StatusAgrees machine where
  counted : machine.fuel.isSome ↔ machine.fuelLimit.isSome

/-- Without a fault the status is no error. -/
theorem statusAgrees_of_noFault {machine : Machine} (noFault : machine.fault = none)
    (noError : machine.status = .running ∨ machine.status = .halted) : StatusAgrees machine := by
  constructor <;> rcases noError with status | status <;> simp [noFault, status]

/-- A failure settles the fault and the status together. -/
theorem fail_agrees (machine : Machine) (pc : UInt32) (error : RuntimeError) :
    StatusAgrees (machine.fail pc error).1 := by
  unfold fail RuntimeError.isFatal RuntimeError.severity
  constructor <;> cases kind : error.code.severity <;> simp [kind]

theorem fail_coherent {machine : Machine}
    (counted : machine.fuel.isSome ↔ machine.fuelLimit.isSome) (pc : UInt32)
    (error : RuntimeError) : Coherent (machine.fail pc error).1 :=
  ⟨machine.fail_agrees pc error, counted⟩

/-- Of a coherent machine the status alone tells whether it runs. -/
theorem Coherent.isRunning_iff {machine : Machine} (coherent : Coherent machine) :
    machine.IsRunning ↔ machine.status = .running := by
  refine ⟨IsRunning.status, fun running => ⟨running, ?_⟩⟩
  cases fault : machine.fault with
  | none => rfl
  | some cause =>
      have error := coherent.faulted.mp (by rw [fault]; rfl)
      rw [running] at error
      rcases error with impossible | impossible <;> cases impossible

/-- A machine whose fuel is not limited counts none. -/
theorem Coherent.unlimited {machine : Machine} (coherent : Coherent machine)
    (noLimit : machine.fuelLimit = none) : machine.fuel = none := by
  rw [← Option.not_isSome_iff_eq_none, coherent.counted, noLimit]
  decide

/-- One unit of fuel less is still counted. -/
theorem Coherent.spent_counted {machine : Machine} (coherent : Coherent machine) :
    machine.spent.fuel.isSome ↔ machine.spent.fuelLimit.isSome := by
  rw [spent, Option.isSome_map]
  exact coherent.counted

theorem attempt_coherent {machine : Machine} (coherent : Coherent machine)
    (running : machine.IsRunning) (sink : Sink) : Coherent (machine.attempt sink).machine := by
  have cases := machine.attempt_cases sink
  generalize machine.attempt sink = progress at cases ⊢
  cases cases with
  | exhausted limit => exact fail_coherent coherent.counted _ _
  | unlimited => exact coherent
  | refused error => exact fail_coherent coherent.spent_counted _ _
  | failed instruction error =>
      obtain ⟨_, _, _, limit, fuel⟩ := machine.prepared.execute_books sink instruction
      apply fail_coherent
      rw [limit, fuel]
      exact coherent.spent_counted
  | done instruction =>
      obtain ⟨status, fault, _, limit, fuel⟩ := machine.prepared.execute_books sink instruction
      refine ⟨statusAgrees_of_noFault (fault.trans running.fault) ?_, ?_⟩
      · rw [status]
        by_cases halts : instruction.opcode = .halt
        · exact .inr (if_pos halts)
        · exact .inl ((if_neg halts).trans running.status)
      · rw [limit, fuel]
        exact coherent.spent_counted

/-- A step keeps a machine coherent. -/
theorem step_coherent {machine : Machine} (coherent : Coherent machine) (sink : Sink) :
    Coherent (machine.step sink).machine := by
  by_cases running : machine.IsRunning
  · rw [step_running machine sink running]
    exact attempt_coherent coherent running sink
  · rw [(step_stopped machine sink running).1]
    exact coherent

theorem started_coherent (machine : Machine) (container : Container) :
    Coherent (machine.started container) :=
  ⟨statusAgrees_of_noFault rfl (.inl rfl), Iff.rfl⟩

/-- Every call of the host keeps the machine coherent. -/
theorem Session.coherent {held : Option Container} {machine : Machine}
    (session : Session held machine) : Coherent machine := by
  induction session with
  | empty fuelLimit => exact ⟨statusAgrees_of_noFault rfl (.inl rfl), Iff.rfl⟩
  | @load _ machine _ bytes container _ accepted loaded _ =>
      rw [load_eq, accepted] at loaded
      rw [← Except.ok.inj loaded]
      exact machine.started_coherent container
  | loadRefused _ _ _ _ inductionHypothesis => exact inductionHypothesis
  | step sink _ inductionHypothesis => exact step_coherent inductionHypothesis sink
  | run record steps sink _ ended inductionHypothesis =>
      have kept (before : Machine) (sink : Sink) (coherent : Coherent before) :
          Coherent (before.step sink).machine := step_coherent coherent sink
      exact run_keeps kept inductionHypothesis ended
  | allocate text address _ allocated inductionHypothesis =>
      obtain ⟨_, _, same⟩ := allocateText_ok allocated
      rw [same]
      exact ⟨⟨inductionHypothesis.faulted, inductionHypothesis.fatal⟩,
        inductionHypothesis.counted⟩
  | allocateRefused _ _ _ _ inductionHypothesis => exact inductionHypothesis

/-- How a machine that stopped answers every call: a step or a run changes nothing, shows nothing
and gives the same answer, a load that is refused changes nothing, and an allocation leaves the
status and the fault. Only a load that succeeds makes the machine run again. -/
structure Stopped (machine : Machine) (answer : Except (Abort Fault) Unit) : Prop where
  step : ∀ sink, machine.step sink = ⟨machine, sink, [], [], answer⟩
  run : ∀ record steps sink, sink.flush = .ok () →
    machine.run record steps sink = some ⟨machine, sink, [], [], answer⟩
  loadRefused : ∀ bytes reason, (machine.loading bytes).value.result = .error reason →
    (machine.loading bytes).value.machine = machine
  allocated : ∀ text address after, (machine.allocateText text).value = .ok (address, after) →
    after.status = machine.status ∧ after.fault = machine.fault
  loaded : ∀ bytes, (machine.loading bytes).value.result = .ok () →
    (machine.loading bytes).value.machine.status = .running ∧
      (machine.loading bytes).value.machine.fault = none

section Loading

variable {machine : Machine} {bytes : List UInt8}

theorem loading_refused {reason : Abort RuntimeError}
    (refused : (machine.loading bytes).value.result = .error reason) :
    (machine.loading bytes).value.machine = machine := by
  rw [loading_eq] at refused ⊢
  cases checked : (Container.ofLoadable bytes).value with
  | error cause => rfl
  | ok container =>
      rw [checked] at refused
      cases refused

theorem loading_runs (loaded : (machine.loading bytes).value.result = .ok ()) :
    (machine.loading bytes).value.machine.status = .running ∧
      (machine.loading bytes).value.machine.fault = none := by
  rw [loading_eq] at loaded ⊢
  cases checked : (Container.ofLoadable bytes).value with
  | error cause =>
      rw [checked] at loaded
      cases loaded
  | ok container => exact ⟨rfl, rfl⟩

theorem allocated_status {after : Machine} {text : String} {address : UInt32}
    (allocated : (machine.allocateText text).value = .ok (address, after)) :
    after.status = machine.status ∧ after.fault = machine.fault := by
  obtain ⟨_, _, same⟩ := allocateText_ok allocated
  rw [same]
  exact ⟨rfl, rfl⟩

end Loading

/-- A machine with a fault repeats it. -/
theorem stopped_of_fault {machine : Machine} {fault : Fault}
    (recorded : machine.fault = some fault) :
    Stopped machine (.error (.raised fault)) where
  step sink := by rw [Machine.step, recorded]
  run record steps sink _ := by rw [Machine.run, recorded]
  loadRefused _ _ refused := loading_refused refused
  allocated _ _ _ allocated := allocated_status allocated
  loaded _ loaded := loading_runs loaded

/-- A machine that halted stays halted. -/
theorem stopped_of_halted {machine : Machine} (noFault : machine.fault = none)
    (halted : machine.status = .halted) : Stopped machine (.ok ()) where
  step sink := by
    have notRunning : machine.status ≠ .running := by rw [halted]; decide
    simp only [Machine.step, noFault, if_neg notRunning]
  run record steps sink flushed := by
    have notRunning : machine.status ≠ .running := by rw [halted]; decide
    simp only [Machine.run, noFault]
    cases steps <;> simp [runAfter, notRunning, finish, flushed, Except.mapError]
  loadRefused _ _ refused := loading_refused refused
  allocated _ _ _ allocated := allocated_status allocated
  loaded _ loaded := loading_runs loaded

/-- In every session the records of the status agree, and a machine that stopped stays so: after a
halt every step and run succeeds at once, and after a fault each of them gives that fault again. -/
theorem session_status {held : Option Container} {machine : Machine}
    (session : Session held machine) :
    StatusAgrees machine ∧ (machine.status = .halted → Stopped machine (.ok ())) ∧
      (machine.status = .fatalError ∨ machine.status = .softError →
        ∃ fault, machine.fault = some fault ∧ Stopped machine (.error (.raised fault))) := by
  have coherent := session.coherent
  refine ⟨coherent.toStatusAgrees, ?_, ?_⟩
  · intro halted
    have noFault : machine.fault = none := by
      rw [← Option.not_isSome_iff_eq_none, coherent.faulted, halted]
      decide
    exact stopped_of_halted noFault halted
  · intro stopped
    obtain ⟨fault, recorded⟩ := Option.isSome_iff_exists.mp (coherent.faulted.mpr stopped)
    exact ⟨fault, recorded, stopped_of_fault recorded⟩

/-- A machine that met an unknown opcode stays in the fatal status and repeats its fault. -/
theorem session_status_unknownOpcode :
    let container := Container.ofSections ⟨[0xFF, 0, 0, 0, 0, 0, 0, 0], [], []⟩ 0
    let failed := (((empty none).started container).step .unlimited).machine
    Session (some container) failed ∧ failed.status = .fatalError ∧ StatusAgrees failed ∧
      ∃ fault, failed.fault = some fault ∧ Stopped failed (.error (.raised fault)) := by
  intro container failed
  have accepted : (Container.ofLoadable container.toBytes).value = .ok container := by
    decide +kernel
  have loaded : ((empty none).load container.toBytes).value =
      .ok ((empty none).started container) := by
    rw [load_eq, accepted]
  have session : Session (some container) failed :=
    .step .unlimited (.load container.toBytes container (.empty none) accepted loaded)
  have fatal : failed.status = .fatalError := by decide +kernel
  obtain ⟨agrees, _, stopped⟩ := session_status session
  exact ⟨session, fatal, agrees, stopped (.inl fatal)⟩

end Machine

end RegisterMachine
