/-
This file names the situations that callers rule out and the ways a computation can stop.
-/

namespace RegisterMachine

/-- A broken promise of the caller or of the library itself; no input is meant to cause one
except a program with more lines than the caller made room for. -/
inductive Defect where
  | lineCapacityExceeded (capacity sourceLine : Nat)
  | foreignSymbol
  | registerFileIndex
  | imageRange
  | wordOverflow
  | notArithmetic
  deriving DecidableEq, Repr

def Defect.message : Defect → String
  | lineCapacityExceeded capacity sourceLine =>
      s!"program line capacity ({capacity}) exceeded at source line {sourceLine}"
  | foreignSymbol => "symbol of another interner"
  | registerFileIndex => "register file index out of range"
  | imageRange => "memory image range out of bounds"
  | wordOverflow => "word arithmetic out of range"
  | notArithmetic => "operation is not arithmetic"

/-- A computation stops with an error about its input or with a defect. -/
inductive Abort (ε : Type) where
  | raised (error : ε)
  | defect (defect : Defect)
  deriving DecidableEq, Repr

/-- Defects pass through a change of the kind of error. -/
def Abort.map {ε ζ : Type} (change : ε → ζ) : Abort ε → Abort ζ
  | raised error => .raised (change error)
  | defect cause => .defect cause

/-- A computation that knows no error but a defect. -/
def Abort.lift {ε α : Type} (outcome : Except Defect α) : Except (Abort ε) α :=
  outcome.mapError .defect

section Sequence

variable {ε α β : Type}

@[simp] theorem okBind (value : α) (next : α → Except ε β) :
    (Except.ok value >>= next) = next value := rfl

@[simp] theorem errorBind (reason : ε) (next : α → Except ε β) :
    (Except.error reason >>= next) = .error reason := rfl

@[simp] theorem pureOk (value : α) : (pure value : Except ε α) = .ok value := rfl

@[simp] theorem throwEq (reason : ε) : (throw reason : Except ε α) = .error reason := rfl

@[simp] theorem Abort.liftOk (value : α) :
    Abort.lift (.ok value) = (.ok value : Except (Abort ε) α) := rfl

@[simp] theorem Abort.liftError (cause : Defect) :
    Abort.lift (.error cause) = (.error (.defect cause) : Except (Abort ε) α) := rfl

end Sequence

/-- A sequence succeeds only if its first part does. -/
theorem bindOk {ε α β : Type} {first : Except ε α} {next : α → Except ε β} {result : β}
    (found : (first >>= next) = .ok result) :
    ∃ value, first = .ok value ∧ next value = .ok result := by
  cases first with
  | error reason => cases found
  | ok value => exact ⟨value, rfl, found⟩

/-- A change of the kind of error leaves results as they are. -/
theorem mapErrorOk {ε ζ α : Type} {first : Except ε α} {change : ε → ζ} {result : α}
    (found : first.mapError change = .ok result) : first = .ok result := by
  cases first with
  | error reason => cases found
  | ok value => exact congrArg Except.ok (Except.ok.inj found)

end RegisterMachine
