/-
This file says when a computation ends in no defect: it gives a result or reports an error about
its input.
-/

import RegisterMachine.Defect

namespace RegisterMachine

/-- A computation that ends in no defect. -/
def Reports {ε α : Type} (computation : Except (Abort ε) α) : Prop :=
  ∀ cause, computation ≠ .error (.defect cause)

namespace Reports

variable {ε ζ α β : Type}

theorem ok (value : α) : Reports (.ok value : Except (Abort ε) α) := by
  intro cause same
  cases same

theorem raised (error : ε) : Reports (.error (.raised error) : Except (Abort ε) α) := by
  intro cause same
  cases same

/-- A sequence ends in a defect only if one of its parts does. -/
theorem bind {first : Except (Abort ε) α} {next : α → Except (Abort ε) β}
    (firstReports : Reports first)
    (nextReports : ∀ value, first = .ok value → Reports (next value)) :
    Reports (first >>= next) := by
  cases found : first with
  | error reason =>
      intro cause same
      cases same
      exact firstReports cause found
  | ok value => exact nextReports value found

/-- A defect passes through a change of the kind of error, so there was none before. -/
theorem mapError {computation : Except (Abort ε) α} (change : ε → ζ)
    (reports : Reports computation) : Reports (computation.mapError (Abort.map change)) := by
  cases found : computation with
  | ok value => exact .ok value
  | error reason =>
      cases reason with
      | raised error => exact .raised (change error)
      | defect cause => exact absurd found (reports cause)

/-- There is a result, or an error that is reported. -/
theorem result {computation : Except (Abort ε) α} (reports : Reports computation) :
    (∃ value, computation = .ok value) ∨ ∃ error, computation = .error (.raised error) := by
  cases found : computation with
  | ok value => exact .inl ⟨value, rfl⟩
  | error reason =>
      cases reason with
      | raised error => exact .inr ⟨error, rfl⟩
      | defect cause => exact absurd found (reports cause)

end Reports

end RegisterMachine
