/-
This file follows a machine over a number of steps, with all that they print and show. A run is a
walk up to the first step after which the machine no longer runs.
-/

import RegisterMachine.Proofs.Machine.Status

namespace RegisterMachine

namespace Progress

/-- Progress with what was shown and reported before it. -/
def following (progress : Progress) (trace : List TraceEvent) (log : List Diagnostic) : Progress :=
  { progress with trace := trace ++ progress.trace, log := log ++ progress.log }

/-- What a run makes of the steps that it took: it keeps their trace only if it is asked for, and
flushes the output of a machine without a fault. -/
def ended (progress : Progress) (record : Bool) : Progress :=
  { progress with
    trace := if record then progress.trace else []
    result := progress.result.bind fun () =>
      progress.sink.flush.mapError fun reason => .raised ⟨.output reason, progress.machine.pc⟩ }

theorem following_following (progress : Progress) (first second : List TraceEvent)
    (earlier later : List Diagnostic) :
    (progress.following second later).following first earlier =
      progress.following (first ++ second) (earlier ++ later) := by
  simp only [following, List.append_assoc]

theorem ended_following (progress : Progress) (trace : List TraceEvent) (log : List Diagnostic)
    (record : Bool) :
    (progress.following trace log).ended record =
      (progress.ended record).following (if record then trace else []) log := by
  cases record <;> rfl

end Progress

namespace Machine

/-- The answer of a machine after its last step: the fault that it stopped on, if there is one. -/
def verdict (machine : Machine) : Except (Abort Fault) Unit :=
  match machine.fault with
  | some fault => .error (.raised fault)
  | none => .ok ()

/-- What a number of steps make of a machine and its output. -/
def walk (machine : Machine) (sink : Sink) : (count : Nat) → Progress
  | 0 => ⟨machine, sink, [], [], machine.verdict⟩
  | count + 1 =>
      let first := machine.step sink
      (first.machine.walk first.sink count).following first.trace first.log

/-- A walk can be interrupted anywhere. -/
theorem walk_add (machine : Machine) (sink : Sink) (first second : Nat) :
    machine.walk sink (first + second) =
      let earlier := machine.walk sink first
      (earlier.machine.walk earlier.sink second).following earlier.trace earlier.log := by
  induction first generalizing machine sink with
  | zero => rw [Nat.zero_add]; rfl
  | succ first inductionHypothesis =>
      rw [Nat.succ_add]
      simp only [walk]
      rw [inductionHypothesis]
      exact Progress.following_following _ _ _ _ _

/-- The last step of a walk. -/
theorem walk_succ (machine : Machine) (sink : Sink) (count : Nat) :
    let earlier := machine.walk sink count
    let last := earlier.machine.step earlier.sink
    machine.walk sink (count + 1) =
      ⟨last.machine, last.sink, earlier.trace ++ last.trace, earlier.log ++ last.log,
        last.machine.verdict⟩ := by
  rw [walk_add]
  simp only [walk, Progress.following, List.append_nil]

theorem walk_coherent {machine : Machine} (coherent : Coherent machine) (sink : Sink)
    (count : Nat) : Coherent (machine.walk sink count).machine := by
  induction count generalizing machine sink with
  | zero => exact coherent
  | succ count inductionHypothesis => exact inductionHypothesis (step_coherent coherent sink) _

/-- A step of a machine that does not run gives its answer again and does nothing else. -/
theorem step_stopped_eq (machine : Machine) (sink : Sink) (stopped : ¬machine.IsRunning) :
    machine.step sink = ⟨machine, sink, [], [], machine.verdict⟩ := by
  unfold step verdict
  cases fault : machine.fault with
  | some cause => rfl
  | none => exact if_neg fun status => stopped ⟨status, fault⟩

/-- The answer of a step is that of the machine after it. -/
theorem step_result {machine : Machine} (coherent : Coherent machine) (sink : Sink) :
    (machine.step sink).result = (machine.step sink).machine.verdict := by
  by_cases running : machine.IsRunning
  · rw [step_running machine sink running]
    have cases := machine.attempt_cases sink
    generalize machine.attempt sink = progress at cases ⊢
    cases cases with
    | exhausted | refused | failed => rfl
    | unlimited empty unlimited =>
        rw [coherent.unlimited unlimited] at empty
        cases empty
    | done instruction =>
        obtain ⟨_, fault, _⟩ := machine.prepared.execute_books sink instruction
        have noFault : (machine.prepared.execute sink instruction).machine.fault = none :=
          fault.trans running.fault
        rw [verdict, noFault]
  · rw [step_stopped_eq machine sink running]

/-- The machine stops during its last step and not before. -/
structure StopsAt (machine : Machine) (sink : Sink) (count : Nat) : Prop where
  running : ∀ earlier, earlier < count → (machine.walk sink earlier).machine.status = .running
  stopped : (machine.walk sink count).machine.status ≠ .running

/-- Where a machine has not stopped, it runs. -/
theorem running_of_notStopped {machine : Machine} {sink : Sink} {count : Nat}
    (goesOn : ∀ earlier, earlier ≤ count → ¬machine.StopsAt sink earlier) :
    ∀ earlier, earlier ≤ count → (machine.walk sink earlier).machine.status = .running := by
  intro earlier
  induction earlier using Nat.strongRecOn with
  | ind earlier inductionHypothesis =>
      intro within
      by_contra stopped
      exact goesOn earlier within
        ⟨fun former before => inductionHypothesis former before (by omega), stopped⟩

/-- What stops later stops the rest of the walk. -/
theorem StopsAt.tail {machine : Machine} {sink : Sink} {count : Nat}
    (stops : machine.StopsAt sink (count + 1)) :
    (machine.step sink).machine.StopsAt (machine.step sink).sink count where
  running earlier before := stops.running (earlier + 1) (Nat.succ_lt_succ before)
  stopped := stops.stopped

theorem runAfter_ends {machine : Machine} {sink : Sink} {count steps : Nat}
    (coherent : Coherent machine) (noFault : machine.fault = none)
    (stops : machine.StopsAt sink count) (enough : count ≤ steps) (record : Bool)
    (trace : Array TraceEvent) (log : Array Diagnostic) :
    runAfter record trace log machine sink steps =
      some (((machine.walk sink count).ended record).following trace.toList log.toList) := by
  induction count generalizing machine sink steps trace log with
  | zero =>
      have stopped : machine.status ≠ .running := stops.stopped
      have last : machine.finish sink trace log =
          ((machine.walk sink 0).ended record).following trace.toList log.toList := by
        simp [walk, verdict, noFault, Progress.ended, Progress.following, finish, Except.bind]
      rw [← last]
      cases steps <;> simp only [runAfter, if_neg stopped]
  | succ count inductionHypothesis =>
      have running : machine.status = .running := stops.running 0 (Nat.succ_pos count)
      obtain ⟨steps, rfl⟩ : ∃ fewer, steps = fewer + 1 := ⟨steps - 1, by omega⟩
      have next := step_coherent coherent sink
      have result := step_result coherent sink
      unfold runAfter
      rw [if_pos running]
      dsimp only
      cases fault : (machine.step sink).machine.fault with
      | none =>
          rw [verdict, fault] at result
          rw [result]
          dsimp only
          rw [inductionHypothesis next fault stops.tail (Nat.le_of_succ_le_succ enough), walk,
            Progress.ended_following, Progress.following_following]
          cases record <;> simp
      | some cause =>
          -- The fault has stopped the machine, so this was the last step.
          have last : count = 0 := by
            by_contra more
            have later := next.isRunning_iff.mpr (stops.running 1 (by omega))
            rw [later.fault] at fault
            cases fault
          subst last
          rw [verdict, fault] at result
          rw [result]
          cases record <;>
            simp [walk, verdict, fault, Progress.ended, Progress.following, Except.bind]

/-- A run is the walk to the step that stops the machine, given as many steps or more. -/
theorem run_ends {machine : Machine} {sink : Sink} {count steps : Nat}
    (coherent : Coherent machine) (stops : machine.StopsAt sink count) (enough : count ≤ steps)
    (record : Bool) :
    machine.run record steps sink = some ((machine.walk sink count).ended record) := by
  unfold run
  cases fault : machine.fault with
  | none =>
      dsimp only
      rw [runAfter_ends coherent fault stops enough]
      rfl
  | some cause =>
      have first : count = 0 := by
        by_contra more
        have running := coherent.isRunning_iff.mpr (stops.running 0 (by omega))
        rw [running.fault] at fault
        cases fault
      subst first
      cases record <;> simp [walk, verdict, fault, Progress.ended, Except.bind]

end Machine

end RegisterMachine
