/-
This file says once how a run is made of steps: what every step keeps, every run keeps.
-/

import RegisterMachine.Machine.Run

namespace RegisterMachine.Machine

section Invariant

variable {Holds : Machine → Prop}

theorem runAfter_keeps (kept : ∀ machine sink, Holds machine → Holds (machine.step sink).machine)
    {record : Bool} {trace : Array TraceEvent} {log : Array Diagnostic} {machine : Machine}
    {sink : Sink} {steps : Nat} {progress : Progress} (holds : Holds machine)
    (ended : runAfter record trace log machine sink steps = some progress) :
    Holds progress.machine := by
  induction steps generalizing trace log machine sink with
  | zero =>
      unfold runAfter at ended
      split at ended
      · cases ended
      · cases ended
        exact holds
  | succ steps inductionHypothesis =>
      unfold runAfter at ended
      split at ended
      · have stepped := kept machine sink holds
        dsimp only at ended
        split at ended
        · exact inductionHypothesis stepped ended
        · cases ended
          exact stepped
      · cases ended
        exact holds

/-- What every step keeps, every run keeps, however many steps it takes. -/
theorem run_keeps (kept : ∀ machine sink, Holds machine → Holds (machine.step sink).machine)
    {record : Bool} {steps : Nat} {machine : Machine} {sink : Sink} {progress : Progress}
    (holds : Holds machine) (ended : run record steps machine sink = some progress) :
    Holds progress.machine := by
  unfold run at ended
  split at ended
  · cases ended
    exact holds
  · exact runAfter_keeps kept holds ended

end Invariant

end RegisterMachine.Machine
