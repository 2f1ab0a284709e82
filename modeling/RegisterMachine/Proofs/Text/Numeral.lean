/-
This file reads numbers back from their digits. A number is determined by its digits in any base of
at most sixteen, however many zeros stand in front of them.
-/

import RegisterMachine.Source.Token.Reading

namespace RegisterMachine.Text

open Source.Reading (digitValue)

/-- The number that a text of digits stands for. -/
def number (base : Nat) (digits : List Char) : Nat :=
  value base (digits.map digitValue)

theorem digitValue_digitChar {digit : Nat} (bound : digit < 16) :
    digitValue (Nat.digitChar digit) = digit := by
  have digits : ∀ digit < 16, digitValue (Nat.digitChar digit) = digit := by decide
  exact digits digit bound

theorem number_append (base : Nat) (digits : List Char) {digit : Nat} (bound : digit < 16) :
    number base (digits ++ [Nat.digitChar digit]) = base * number base digits + digit := by
  simp [number, value, digitValue_digitChar bound]

theorem number_replicate_zero (base zeros : Nat) (digits : List Char) :
    number base (List.replicate zeros '0' ++ digits) = number base digits := by
  induction zeros with
  | zero => rfl
  | succ zeros inductionHypothesis =>
      rw [List.replicate_succ, List.cons_append, ← inductionHypothesis]
      rfl

section Digits

variable {base : Nat} (more : 1 < base) (few : base ≤ 16)

include more few

theorem number_toDigits (value : Nat) : number base (Nat.toDigits base value) = value := by
  induction value using Nat.base_induction base more with
  | single digit small =>
      rw [Nat.toDigits_of_lt_base small, ← List.nil_append [_],
        number_append base [] (Nat.lt_of_lt_of_le small few)]
      exact Nat.zero_add digit
  | digit front last small positive inductionHypothesis =>
      rw [← Nat.toDigits_append_toDigits more positive small, Nat.toDigits_of_lt_base small,
        number_append base _ (Nat.lt_of_lt_of_le small few), inductionHypothesis]

theorem number_paddedDigits (width value : Nat) :
    number base (paddedDigits base width value) = value := by
  rw [paddedDigits, List.leftpad, number_replicate_zero, number_toDigits more few]

theorem paddedDigits_injective {width value other : Nat}
    (same : paddedDigits base width value = paddedDigits base width other) : value = other := by
  rw [← number_paddedDigits more few width value, same, number_paddedDigits more few]

omit few

theorem mem_toDigits {value : Nat} {character : Char}
    (member : character ∈ Nat.toDigits base value) :
    ∃ digit < base, character = Nat.digitChar digit := by
  induction value using Nat.base_induction base more with
  | single digit small =>
      rw [Nat.toDigits_of_lt_base small, List.mem_singleton] at member
      exact ⟨digit, small, member⟩
  | digit front last small positive inductionHypothesis =>
      rw [← Nat.toDigits_append_toDigits more positive small, Nat.toDigits_of_lt_base small,
        List.mem_append, List.mem_singleton] at member
      rcases member with earlier | same
      · exact inductionHypothesis earlier
      · exact ⟨last, small, same⟩

theorem mem_paddedDigits {width value : Nat} {character : Char}
    (member : character ∈ paddedDigits base width value) :
    ∃ digit < base, character = Nat.digitChar digit := by
  rw [paddedDigits, List.leftpad, List.mem_append] at member
  rcases member with zero | digit
  · exact ⟨0, Nat.lt_of_succ_lt more, (List.mem_replicate.mp zero).2⟩
  · exact mem_toDigits more digit

end Digits

/-- A character that is no digit stands in no number. -/
theorem not_mem_paddedDigits {base : Nat} (more : 1 < base) (few : base ≤ 16) {character : Char}
    (other : ∀ digit < 16, Nat.digitChar digit ≠ character) (width value : Nat) :
    character ∉ paddedDigits base width value := by
  intro member
  obtain ⟨digit, small, same⟩ := mem_paddedDigits more member
  exact other digit (Nat.lt_of_lt_of_le small few) same.symm

theorem not_mem_toDigits {base : Nat} (more : 1 < base) (few : base ≤ 16) {character : Char}
    (other : ∀ digit < 16, Nat.digitChar digit ≠ character) (value : Nat) :
    character ∉ Nat.toDigits base value := by
  intro member
  obtain ⟨digit, small, same⟩ := mem_toDigits more member
  exact other digit (Nat.lt_of_lt_of_le small few) same.symm

theorem hexadecimal_toList (width value : Nat) :
    (hexadecimal width value).toList = '0' :: 'x' :: paddedDigits 16 width value := by
  rw [hexadecimal, String.toList_append]
  exact congrArg (fun digits => '0' :: 'x' :: digits) String.toList_ofList

theorem binary_toList (width value : Nat) :
    (binary width value).toList = '0' :: 'b' :: paddedDigits 2 width value := by
  rw [binary, String.toList_append]
  exact congrArg (fun digits => '0' :: 'b' :: digits) String.toList_ofList

theorem byteDigits_length (byte : UInt8) : (byteDigits byte).length = 2 := by
  have short : (Nat.toDigits 16 byte.toNat).length ≤ 2 :=
    (Nat.length_toDigits_le_iff (by decide) (by decide)).mpr byte.toNat_lt
  rw [byteDigits, paddedDigits, List.length_leftpad, Nat.max_eq_left short]

/-- The word that a signed decimal number stands for. -/
def wordOfSigned : List Char → UInt32
  | '-' :: digits => UInt32.ofNat (0x100000000 - number 10 digits)
  | _ :: digits => UInt32.ofNat (number 10 digits)
  | [] => 0

theorem signedDecimal_toList (word : UInt32) :
    (signedDecimal word).toList =
      if word.toNat < 0x80000000 then '+' :: Nat.toDigits 10 word.toNat
      else '-' :: Nat.toDigits 10 (0x100000000 - word.toNat) := by
  unfold signedDecimal
  split <;> rw [String.toList_append, Nat.toString_eq_repr, Nat.toList_repr] <;> rfl

/-- The sign tells the two halves of the words apart. -/
theorem wordOfSigned_signedDecimal (word : UInt32) :
    wordOfSigned (signedDecimal word).toList = word := by
  have bound := word.toNat_lt
  rw [signedDecimal_toList]
  split
  · rename_i small
    rw [wordOfSigned, number_toDigits (by decide) (by decide), UInt32.ofNat_toNat]
    decide
  · rename_i large
    rw [wordOfSigned, number_toDigits (by decide) (by decide), Nat.sub_sub_self (by omega),
      UInt32.ofNat_toNat]

end RegisterMachine.Text
