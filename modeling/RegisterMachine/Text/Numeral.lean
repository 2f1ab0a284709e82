/-
This file reads and spells numbers. A number of any length is read against a bound without leaving
small numbers, and `boundedValueEqMin` says that only numbers beyond the bound are changed.
-/

namespace RegisterMachine.Text

/-- The number that digits stand for; the most significant digit comes first. -/
def value (base : Nat) (digits : List Nat) : Nat :=
  digits.foldl (fun value digit => base * value + digit) 0

/-- The number that digits stand for, or the bound if the number lies beyond it. -/
def boundedValue (bound base : Nat) (digits : List Nat) : Nat :=
  digits.foldl (fun value digit => min bound (base * value + digit)) 0

theorem minMulAddMin (bound base value digit : Nat) (basePositive : 0 < base) :
    min bound (base * min bound value + digit) = min bound (base * value + digit) := by
  rcases Nat.le_total value bound with within | beyond
  · rw [Nat.min_eq_right within]
  · rw [Nat.min_eq_left beyond]
    have boundGrows : bound ≤ base * bound := Nat.le_mul_of_pos_left bound basePositive
    have valueGrows : value ≤ base * value := Nat.le_mul_of_pos_left value basePositive
    omega

theorem boundedValueEqMin (bound base : Nat) (digits : List Nat) (basePositive : 0 < base) :
    boundedValue bound base digits = min bound (value base digits) := by
  have fromAny (start : Nat) :
      digits.foldl (fun value digit => min bound (base * value + digit)) (min bound start) =
        min bound (digits.foldl (fun value digit => base * value + digit) start) := by
    induction digits generalizing start with
    | nil => rfl
    | cons digit rest inductionHypothesis =>
        simp only [List.foldl_cons, minMulAddMin bound base start digit basePositive]
        exact inductionHypothesis (base * start + digit)
  simpa [boundedValue, value] using fromAny 0

/-- Digits of a number in a base of at most sixteen, zeros on the left up to a least width. -/
def paddedDigits (base width value : Nat) : List Char :=
  (Nat.toDigits base value).leftpad width '0'

/-- Hexadecimal with its mark; the width counts digits only. -/
def hexadecimal (width value : Nat) : String :=
  "0x" ++ String.ofList (paddedDigits 16 width value)

/-- Binary with its mark; the width counts digits only. -/
def binary (width value : Nat) : String :=
  "0b" ++ String.ofList (paddedDigits 2 width value)

/-- A byte is two hexadecimal digits without a mark. -/
def byteDigits (byte : UInt8) : List Char :=
  paddedDigits 16 2 byte.toNat

/-- A word read in two's complement always shows its sign. -/
def signedDecimal (word : UInt32) : String :=
  if word.toNat < 0x80000000 then "+" ++ toString word.toNat
  else "-" ++ toString (0x100000000 - word.toNat)

/-- Addresses are shown with at least six hexadecimal digits. -/
def address (value : Nat) : String :=
  hexadecimal 6 value

end RegisterMachine.Text
