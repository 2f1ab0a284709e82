/-
This file compares a run with single steps. A host can take any number of steps before it lets the
machine run: it ends as if the machine had been run from the beginning.
-/

import RegisterMachine.Proofs.Machine.Walk

namespace RegisterMachine.Machine

/-- Running the machine ends with this progress, after however many steps. -/
def RunsTo (machine : Machine) (sink : Sink) (record : Bool) (ended : Progress) : Prop :=
  ∃ steps, machine.run record steps sink = some ended

section Walks

variable {machine : Machine} {sink : Sink}

/-- A machine that does not run stays as it is, however many steps are taken. -/
theorem walk_stopped (stopped : ¬machine.IsRunning) (count : Nat) :
    machine.walk sink count = ⟨machine, sink, [], [], machine.verdict⟩ := by
  induction count with
  | zero => rfl
  | succ count inductionHypothesis =>
      rw [walk, step_stopped_eq machine sink stopped]
      dsimp only
      rw [inductionHypothesis]
      rfl

/-- Steps past the one that stopped the machine change nothing. -/
theorem walk_past {count : Nat} (stopped : (machine.walk sink count).machine.status ≠ .running)
    (more : Nat) : machine.walk sink (count + more) = machine.walk sink count := by
  rw [walk_add]
  dsimp only
  rw [walk_stopped fun running => stopped running.status]
  cases count with
  | zero => rfl
  | succ count =>
      rw [walk_succ]
      simp only [Progress.following, List.append_nil]

/-- As long as the machine runs, a run does not end. -/
theorem runAfter_goesOn {steps : Nat} {record : Bool} {trace : Array TraceEvent}
    {log : Array Diagnostic} (coherent : Coherent machine)
    (running : ∀ earlier, earlier ≤ steps →
      (machine.walk sink earlier).machine.status = .running) :
    runAfter record trace log machine sink steps = none := by
  induction steps generalizing machine sink trace log with
  | zero => exact if_pos (running 0 (Nat.le_refl 0))
  | succ steps inductionHypothesis =>
      have next := step_coherent coherent sink
      have now : machine.status = .running := running 0 (Nat.zero_le _)
      have after : (machine.step sink).machine.status = .running :=
        running 1 (Nat.succ_le_succ (Nat.zero_le steps))
      have result : (machine.step sink).result = .ok () := by
        rw [step_result coherent sink, verdict, (next.isRunning_iff.mpr after).fault]
      unfold runAfter
      rw [if_pos now]
      dsimp only
      rw [result]
      exact inductionHypothesis next fun earlier within =>
        running (earlier + 1) (Nat.succ_le_succ within)

/-- A run that ends has taken a step after which the machine no longer ran. -/
theorem exists_stopsAt {steps : Nat} {record : Bool} {ended : Progress}
    (coherent : Coherent machine) (ends : machine.run record steps sink = some ended) :
    ∃ count, count ≤ steps ∧ machine.StopsAt sink count := by
  by_contra never
  -- The loop would go on through all of its steps and have no end to give.
  have running := running_of_notStopped fun count within stops => never ⟨count, within, stops⟩
  have noFault := (coherent.isRunning_iff.mpr (running 0 (Nat.zero_le steps))).fault
  unfold run at ends
  rw [noFault] at ends
  dsimp only at ends
  rw [runAfter_goesOn coherent running] at ends
  cases ends

/-- Whatever stops the machine, a first step does. -/
theorem stopsAt_of_stopped {count : Nat}
    (stopped : (machine.walk sink count).machine.status ≠ .running) :
    ∃ first more, machine.StopsAt sink first ∧ count = first + more := by
  by_contra never
  refine stopped (running_of_notStopped ?_ count (Nat.le_refl count))
  intro first within stops
  exact never ⟨first, count - first, stops, (Nat.add_sub_of_le within).symm⟩

/-- The ends of runs are the walks to a machine that no longer runs. -/
theorem runsTo_iff (coherent : Coherent machine) {record : Bool} {ended : Progress} :
    machine.RunsTo sink record ended ↔
      ∃ count, (machine.walk sink count).machine.status ≠ .running ∧
        ended = (machine.walk sink count).ended record := by
  constructor
  · rintro ⟨steps, ends⟩
    obtain ⟨count, within, stops⟩ := exists_stopsAt coherent ends
    rw [run_ends coherent stops within record] at ends
    exact ⟨count, stops.stopped, (Option.some.inj ends).symm⟩
  · rintro ⟨count, stopped, rfl⟩
    obtain ⟨first, more, stops, rfl⟩ := stopsAt_of_stopped stopped
    rw [walk_past stops.stopped]
    exact ⟨first, run_ends coherent stops (Nat.le_refl first) record⟩

/-- A machine has at most one end. -/
theorem RunsTo.unique (coherent : Coherent machine) {record : Bool} {first second : Progress}
    (one : machine.RunsTo sink record first) (other : machine.RunsTo sink record second) :
    first = second := by
  obtain ⟨count, stopped, rfl⟩ := (runsTo_iff coherent).mp one
  obtain ⟨again, stoppedToo, rfl⟩ := (runsTo_iff coherent).mp other
  rw [← walk_past stopped again, Nat.add_comm, walk_past stoppedToo count]

/-- A run from where some steps led ends where the whole run ends. -/
theorem runsTo_afterSteps (coherent : Coherent machine) (count : Nat) {record : Bool}
    {whole : Progress} :
    let earlier := machine.walk sink count
    machine.RunsTo sink record whole ↔
      ∃ later, earlier.machine.RunsTo earlier.sink record later ∧
        whole = later.following (if record then earlier.trace else []) earlier.log := by
  intro earlier
  have coherentToo : Coherent earlier.machine := walk_coherent coherent sink count
  have split (rest : Nat) : machine.walk sink (count + rest) =
      (earlier.machine.walk earlier.sink rest).following earlier.trace earlier.log :=
    machine.walk_add sink count rest
  constructor
  · intro ends
    obtain ⟨last, stopped, rfl⟩ := (runsTo_iff coherent).mp ends
    have same : machine.walk sink (count + last) = machine.walk sink last := by
      rw [Nat.add_comm, walk_past stopped]
    rw [← same, split] at stopped ⊢
    exact ⟨_, (runsTo_iff coherentToo).mpr ⟨last, stopped, rfl⟩,
      Progress.ended_following _ _ _ record⟩
  · rintro ⟨later, ends, rfl⟩
    obtain ⟨rest, stopped, rfl⟩ := (runsTo_iff coherentToo).mp ends
    refine (runsTo_iff coherent).mpr ⟨count + rest, ?_, ?_⟩
    · rw [split]
      exact stopped
    · rw [split]
      exact (Progress.ended_following _ _ _ record).symm

end Walks

/-- How runs of a machine and single steps agree. There is at most one end, and there is one exactly
if some number of steps leads to a machine that no longer runs. Whatever steps are taken first, the
run from there ends exactly if the whole run does, and it ends with the same machine, the same
output and the same answer; only what the steps have shown and reported is missing from it. -/
structure AgreesWithSteps (machine : Machine) (sink : Sink) : Prop where
  unique : ∀ record first second, machine.RunsTo sink record first →
    machine.RunsTo sink record second → first = second
  ends : ∀ record, (∃ ended, machine.RunsTo sink record ended) ↔
    ∃ count, (machine.walk sink count).machine.status ≠ .running
  resumes : ∀ record count whole, machine.RunsTo sink record whole ↔
    ∃ later,
      (machine.walk sink count).machine.RunsTo (machine.walk sink count).sink record later ∧
        whole.machine = later.machine ∧ whole.sink = later.sink ∧ whole.result = later.result ∧
        whole.trace = (if record then (machine.walk sink count).trace else []) ++ later.trace ∧
        whole.log = (machine.walk sink count).log ++ later.log

/-- In every session, whether the machine runs or has stopped, steps followed by a run are the run
itself. -/
theorem session_agreesWithSteps {held : Option Container} {machine : Machine}
    (session : Session held machine) (sink : Sink) : machine.AgreesWithSteps sink where
  unique record first second := RunsTo.unique session.coherent
  ends record := by
    constructor
    · rintro ⟨ended, ends⟩
      obtain ⟨count, stopped, _⟩ := (runsTo_iff session.coherent).mp ends
      exact ⟨count, stopped⟩
    · rintro ⟨count, stopped⟩
      exact ⟨_, (runsTo_iff session.coherent).mpr ⟨count, stopped, rfl⟩⟩
  resumes record count whole := by
    refine (runsTo_afterSteps session.coherent count).trans ⟨?_, ?_⟩
    · rintro ⟨later, ends, rfl⟩
      exact ⟨later, ends, rfl, rfl, rfl, rfl, rfl⟩
    · rintro ⟨later, ends, machine, sink, result, trace, log⟩
      refine ⟨later, ends, ?_⟩
      rw [Progress.following, ← machine, ← sink, ← result, ← trace, ← log]

/-- A loop under a limit of one instruction stops on the second step, and a run that comes after
more steps than that gives its fault again. -/
theorem session_agreesWithSteps_exhausted :
    let container := Container.ofSections ⟨[0x15, 0, 0, 0, 0, 0, 0, 0x20], [], []⟩ 0
    let machine := (empty (some 1)).started container
    let stopped := machine.walk .unlimited 3
    Session (some container) machine ∧ machine.AgreesWithSteps .unlimited ∧
      stopped.machine.status = .softError ∧
      ∃ ended, machine.RunsTo .unlimited false ended ∧ ended.machine = stopped.machine ∧
        ended.result = .error (.raised ⟨.fuelExhausted 1, 0⟩) := by
  intro container machine stopped
  have accepted : (Container.ofLoadable container.toBytes).value = .ok container := by
    decide +kernel
  have loaded : ((empty (some 1)).load container.toBytes).value = .ok machine := by
    rw [load_eq, accepted]
  have session : Session (some container) machine :=
    .load container.toBytes container (.empty (some 1)) accepted loaded
  have agrees := session_agreesWithSteps session .unlimited
  have softError : stopped.machine.status = .softError := by decide +kernel
  have fault : stopped.machine.fault = some ⟨.fuelExhausted 1, 0⟩ := by decide +kernel
  have notRunning : stopped.machine.status ≠ .running := by
    rw [softError]
    decide
  obtain ⟨ended, ends⟩ := (agrees.ends false).mpr ⟨3, notRunning⟩
  obtain ⟨later, ⟨steps, again⟩, sameMachine, _, sameResult, _⟩ :=
    (agrees.resumes false 3 ended).mp ends
  have repeats : stopped.machine.run false steps stopped.sink = some later := again
  rw [run, fault] at repeats
  rw [← Option.some.inj repeats] at sameMachine sameResult
  dsimp only at sameMachine sameResult
  exact ⟨session, agrees, softError, ended, ends, sameMachine, sameResult⟩

end RegisterMachine.Machine
