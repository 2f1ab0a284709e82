/-
This file gives integer literals their exact value. However long it is, a literal stands for the
word that is nearest to the number that its digits make up, and exactly the literals beyond their
range are reported.
-/

import Mathlib.Data.List.Forall2
import Mathlib.Data.Nat.Digits.Defs
import RegisterMachine.Proofs.Source.Classes

namespace RegisterMachine.Source

/-- A character is written for a digit of a base; letters count in either case. -/
def WrittenFor (base : Nat) (character : Char) (digit : Nat) : Prop :=
  digit < base ∧ character.toLower = Nat.digitChar digit

/-- What stands in front of the digits of a base. -/
inductive BaseMark : (base : Nat) → List Char → Prop
  | decimal : BaseMark 10 []
  | hexadecimal : BaseMark 16 ['0', 'x']
  | capitalHexadecimal : BaseMark 16 ['0', 'X']

/-- The number that a text makes up. The most significant digit comes first, and there may be any
number of digits and of zeros in front of them. -/
inductive MakesUp : (written : List Char) → (number : Nat) → Prop
  | digits {base : Nat} {mark characters : List Char} {digits : List Nat}
      (marked : BaseMark base mark) (nonempty : characters ≠ [])
      (each : List.Forall₂ (WrittenFor base) characters digits) :
      MakesUp (mark ++ characters) (Nat.ofDigits base digits.reverse)

/-- An integer literal, by its sign and its distance from zero. -/
inductive IsLiteral : (written : List Char) → (negative : Bool) → (magnitude : Nat) → Prop
  | plain {written : List Char} {number : Nat} (makesUp : MakesUp written number) :
      IsLiteral written false number
  | minus {written : List Char} {number : Nat} (makesUp : MakesUp written number) :
      IsLiteral ('-' :: written) true number

/-- The number of the range that is nearest. Literals without a sign range over unsigned words, and
literals with one over signed words. -/
def nearest (negative : Bool) (magnitude : Nat) : Int :=
  if negative then max (-(magnitude : Int)) (-2 ^ 31) else min (magnitude : Int) (2 ^ 32 - 1)

/-- A literal beyond its range is reported with its line and as it was written. -/
def rangeReports (line : Nat) (written : List Char) (negative : Bool) (magnitude : Nat) :
    List Diagnostic :=
  if negative then
    if 2 ^ 31 < magnitude then [.literalBelowRange line (String.ofList written)] else []
  else if 2 ^ 32 - 1 < magnitude then [.literalAboveRange line (String.ofList written)] else []

namespace Reading

section Digits

variable {base digit : Nat} {character : Char}

theorem digitValue_toLower (character : Char) :
    digitValue character.toLower = digitValue character := by
  by_cases capital : character.isUpper
  · exact Text.forall_capital (fun character => digitValue character.toLower = digitValue character)
      (by decide) capital
  · rw [Text.toLower_of_not_isUpper capital]

theorem isHexDigit_of_isDigit (decimal : character.isDigit) : isHexDigit character := by
  rw [isHexDigit, decimal]
  rfl

/-- A hexadecimal digit is written for its value. -/
theorem isHexDigit_writtenFor (hexadecimal : isHexDigit character) :
    WrittenFor 16 character (digitValue character) := by
  simp only [isHexDigit, Char.isDigit, Bool.or_eq_true, Bool.and_eq_true, decide_eq_true_eq]
    at hexadecimal
  let written (character : Char) : Prop := WrittenFor 16 character (digitValue character)
  rcases hexadecimal with (decimal | small) | capital
  · exact Text.forall_between written 48 10 (by unfold written WrittenFor; decide) decimal.1
      (Nat.lt_succ_of_le decimal.2)
  · exact Text.forall_between written 97 6 (by unfold written WrittenFor; decide) small.1
      (Nat.lt_succ_of_le small.2)
  · exact Text.forall_between written 65 6 (by unfold written WrittenFor; decide) capital.1
      (Nat.lt_succ_of_le capital.2)

/-- A character that is written for a digit of a base up to sixteen has its value. -/
theorem digitValue_of_writtenFor (within : base ≤ 16)
    (written : WrittenFor base character digit) : digitValue character = digit := by
  have digits : ∀ digit < 16, digitValue (Nat.digitChar digit) = digit := by decide
  rw [← digitValue_toLower, written.2]
  exact digits digit (Nat.lt_of_lt_of_le written.1 within)

theorem writtenFor_hexadecimal (character : Char) (digit : Nat) :
    WrittenFor 16 character digit ↔ isHexDigit character ∧ digit = digitValue character := by
  constructor
  · intro written
    have digits : ∀ digit < 16, isHexDigit (Nat.digitChar digit) := by decide
    have hexadecimal := digits digit written.1
    rw [← written.2, Text.property_toLower isHexDigit (by decide)] at hexadecimal
    exact ⟨hexadecimal, (digitValue_of_writtenFor (Nat.le_refl 16) written).symm⟩
  · rintro ⟨hexadecimal, rfl⟩
    exact isHexDigit_writtenFor hexadecimal

theorem writtenFor_decimal (character : Char) (digit : Nat) :
    WrittenFor 10 character digit ↔ character.isDigit ∧ digit = digitValue character := by
  constructor
  · intro written
    have digits : ∀ digit < 10, (Nat.digitChar digit).isDigit := by decide
    have decimal := digits digit written.1
    rw [← written.2, Text.property_toLower Char.isDigit (by decide)] at decimal
    exact ⟨decimal, (digitValue_of_writtenFor (by decide) written).symm⟩
  · rintro ⟨decimal, rfl⟩
    have high : character.toNat ≤ '9'.toNat :=
      of_decide_eq_true (Bool.and_eq_true_iff.mp decimal).2
    refine ⟨?_, (isHexDigit_writtenFor (isHexDigit_of_isDigit decimal)).2⟩
    rw [digitValue_decimal decimal]
    exact Nat.lt_succ_of_le (Nat.sub_le_of_le_add high)

end Digits

end Reading

/-- Digits that a test and a value characterize are the values of characters that pass the test. -/
theorem forall₂_values {written : Char → Nat → Prop} {passes : Char → Prop} {value : Char → Nat}
    (characterized : ∀ character digit,
      written character digit ↔ passes character ∧ digit = value character)
    {characters : List Char} {digits : List Nat} :
    List.Forall₂ written characters digits ↔
      (∀ character ∈ characters, passes character) ∧ digits = characters.map value := by
  have same : written = fun character digit => passes character ∧ value character = digit := by
    funext character digit
    rw [characterized, eq_comm (a := digit)]
  rw [same, List.forall₂_and_left, ← List.forall₂_map_left_iff (R := (· = ·)),
    List.forall₂_eq_eq_eq, eq_comm]

theorem value_eq_ofDigits (base : Nat) (digits : List Nat) :
    Text.value base digits = Nat.ofDigits base digits.reverse := by
  rw [Text.value, Nat.ofDigits_eq_foldr, List.foldr_reverse]
  simp only [Nat.cast_id, Nat.add_comm]

open Reading (digitValue clamp signed writtenFor_decimal writtenFor_hexadecimal)

/-- The digits that were recognized make up the number that is read. -/
theorem makesUp_iff {written : List Char} {number : Nat} :
    MakesUp written number ↔ ∃ base digits, Magnitude base digits written ∧
      number = Text.value base (digits.map digitValue) := by
  constructor
  · rintro ⟨marked, nonempty, each⟩
    rename_i base mark characters digits
    rw [← value_eq_ofDigits]
    cases marked with
    | decimal =>
        obtain ⟨decimal, rfl⟩ := (forall₂_values writtenFor_decimal).mp each
        exact ⟨10, characters, .decimal nonempty decimal, rfl⟩
    | hexadecimal =>
        obtain ⟨hexadecimal, rfl⟩ := (forall₂_values writtenFor_hexadecimal).mp each
        exact ⟨16, characters, .hexadecimal (.inl rfl) nonempty hexadecimal, rfl⟩
    | capitalHexadecimal =>
        obtain ⟨hexadecimal, rfl⟩ := (forall₂_values writtenFor_hexadecimal).mp each
        exact ⟨16, characters, .hexadecimal (.inr rfl) nonempty hexadecimal, rfl⟩
  · rintro ⟨base, digits, magnitude, rfl⟩
    rw [value_eq_ofDigits]
    cases magnitude with
    | decimal nonempty each =>
        exact .digits .decimal nonempty ((forall₂_values writtenFor_decimal).mpr ⟨each, rfl⟩)
    | hexadecimal marks nonempty each =>
        have digits := (forall₂_values writtenFor_hexadecimal).mpr ⟨each, rfl⟩
        rcases marks with rfl | rfl
        · exact .digits .hexadecimal nonempty digits
        · exact .digits .capitalHexadecimal nonempty digits

theorem isLiteral_iff {written : List Char} {negative : Bool} {magnitude : Nat} :
    IsLiteral written negative magnitude ↔ ∃ base digits, Numeral negative base digits written ∧
      magnitude = Text.value base (digits.map digitValue) := by
  constructor
  · rintro (makesUp | makesUp)
    · obtain ⟨base, digits, found, same⟩ := makesUp_iff.mp makesUp
      exact ⟨base, digits, .plain found, same⟩
    · obtain ⟨base, digits, found, same⟩ := makesUp_iff.mp makesUp
      exact ⟨base, digits, .minus found, same⟩
  · rintro ⟨base, digits, numeral, same⟩
    cases numeral with
    | plain found => exact .plain (makesUp_iff.mpr ⟨base, digits, found, same⟩)
    | minus found => exact .minus (makesUp_iff.mpr ⟨base, digits, found, same⟩)

/-- Clamping finds the nearest number of the range. -/
theorem clamp_nearest (negative : Bool) (magnitude : Nat) :
    (clamp negative magnitude).1 = UInt32.ofInt (nearest negative magnitude) := by
  rw [clamp, UInt32.ofInt, nearest]
  cases negative with
  | false =>
      rw [if_neg Bool.false_ne_true, if_neg Bool.false_ne_true]
      split
      · rw [min_eq_right (by omega)]
        rfl
      · rw [min_eq_left (by omega), Int.emod_eq_of_lt (by omega) (by omega), Int.toNat_natCast]
  | true =>
      rw [if_pos rfl, if_pos rfl]
      split
      · rw [max_eq_right (by omega)]
        rfl
      · -- The pattern of a literal of zero wraps, so only the words agree and not the numbers.
        rw [max_eq_left (by omega), ← UInt32.toNat_inj, UInt32.toNat_ofNat', UInt32.toNat_ofNat']
        omega

theorem signed_reports (line : Nat) (written : List Char) (negative : Bool) (magnitude : Nat) :
    (signed negative magnitude).reports line written =
      rangeReports line written negative magnitude := by
  unfold signed clamp rangeReports
  cases negative with
  | false =>
      by_cases above : 2 ^ 32 - 1 < magnitude
      · have far : 0xFFFFFFFF < magnitude := above
        simp only [Bool.false_eq_true, if_false, if_pos far, if_pos above, Reading.reports]
      · have near : ¬0xFFFFFFFF < magnitude := above
        simp only [Bool.false_eq_true, if_false, if_neg near, if_neg above, Reading.reports]
  | true =>
      by_cases below : 2 ^ 31 < magnitude
      · have far : 0x80000000 < magnitude := below
        simp only [if_true, if_pos far, if_pos below, Reading.reports]
      · have near : ¬0x80000000 < magnitude := below
        simp only [if_true, if_neg near, if_neg below, Reading.reports]

/-- A lexeme is an integer exactly if it is a literal, and then its word is the two's complement of
the nearest number of its range. -/
theorem classify_integer_iff (interner after : Interner) (line : Nat) (written : List Char)
    (word : UInt32) (log : List Diagnostic) :
    classify interner line written = ⟨log, some (.integer word, after)⟩ ↔
      after = interner ∧ ∃ negative magnitude, IsLiteral written negative magnitude ∧
        word = UInt32.ofInt (nearest negative magnitude) ∧
        log = rangeReports line written negative magnitude := by
  have read {negative : Bool} {base magnitude : Nat} {digits : List Char}
      (numeral : Numeral negative base digits written)
      (same : magnitude = Text.value base (digits.map digitValue)) :
      classify interner line written =
        ⟨rangeReports line written negative magnitude,
          some (.integer (UInt32.ofInt (nearest negative magnitude)), interner)⟩ := by
    rw [classify, Reading.of?_numeral numeral, ← signed_reports, ← clamp_nearest, same]
    rfl
  constructor
  · intro classified
    cases classified_of_value (congrArg Logged.value classified) with
    | integer numeral =>
        rw [read numeral rfl, Logged.mk.injEq] at classified
        exact ⟨rfl, _, _, isLiteral_iff.mpr ⟨_, _, numeral, rfl⟩, clamp_nearest _ _,
          classified.1.symm⟩
  · rintro ⟨rfl, negative, magnitude, literal, rfl, rfl⟩
    obtain ⟨base, digits, numeral, same⟩ := isLiteral_iff.mp literal
    exact read numeral same

end RegisterMachine.Source
