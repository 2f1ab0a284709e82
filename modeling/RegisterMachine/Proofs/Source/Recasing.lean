/-
This file proves that the case of letters does not matter where registers and mnemonics are read. A
word with the same letters in another case names the same register, or it is a name again.
-/

import RegisterMachine.Proofs.Source.Written

namespace RegisterMachine

namespace Text

/-- The same letters, perhaps in another case. -/
def SameLetters (first second : List Char) : Prop :=
  first.map Char.toLower = second.map Char.toLower

instance (first second : List Char) : Decidable (SameLetters first second) :=
  inferInstanceAs (Decidable (_ = _))

/-- What holds of the characters from one code to another holds of every character between them. -/
theorem forall_between (holds : Char → Prop) (first count : Nat)
    (each : ∀ code ∈ List.range' first count, holds (.ofNat code)) {character : Char}
    (low : first ≤ character.toNat) (high : character.toNat < first + count) : holds character := by
  have code := each character.toNat (List.mem_range'_1.mpr ⟨low, high⟩)
  rwa [Char.ofNat_toNat] at code

/-- What holds of the capitals from the first to the last holds of every capital. -/
theorem forall_capital (holds : Char → Prop) (each : ∀ code ∈ List.range' 65 26, holds (.ofNat code))
    {character : Char} (capital : character.isUpper) : holds character := by
  have within : 65 ≤ character.toNat ∧ character.toNat ≤ 90 := of_decide_eq_true capital
  exact forall_between holds 65 26 each within.1 (Nat.lt_succ_of_le within.2)

theorem toLower_of_not_isUpper {character : Char} (other : ¬character.isUpper) :
    character.toLower = character :=
  dif_neg fun capital => other (decide_eq_true capital)

theorem toUpper_toLower (character : Char) : character.toLower.toUpper = character.toUpper := by
  by_cases capital : character.isUpper
  · exact forall_capital (fun character => character.toLower.toUpper = character.toUpper)
      (by decide) capital
  · rw [toLower_of_not_isUpper capital]

/-- A property that capitals share with small letters does not depend on case. -/
theorem property_toLower (property : Char → Bool)
    (capitals : ∀ code ∈ List.range' 65 26,
      property (Char.ofNat code).toLower = property (.ofNat code)) (character : Char) :
    property character.toLower = property character := by
  by_cases capital : character.isUpper
  · exact forall_capital (fun character => property character.toLower = property character)
      capitals capital
  · rw [toLower_of_not_isUpper capital]

theorem SameLetters.uppercase {first second : List Char} (same : SameLetters first second) :
    uppercase (String.ofList first) = uppercase (String.ofList second) := by
  have folded (text : List Char) :
      text.map Char.toUpper = (text.map Char.toLower).map Char.toUpper := by
    rw [List.map_map]
    exact List.map_congr_left fun character _ => (toUpper_toLower character).symm
  rw [Text.uppercase, Text.uppercase, String.toList_ofList, String.toList_ofList, folded first,
    folded second, same]

theorem SameLetters.lowercase {first second : List Char} (same : SameLetters first second) :
    lowercase (String.ofList first) = lowercase (String.ofList second) := by
  rw [Text.lowercase, Text.lowercase, String.toList_ofList, String.toList_ofList, same]

theorem SameLetters.all {first second : List Char} (same : SameLetters first second)
    {property : Char → Bool}
    (capitals : ∀ code ∈ List.range' 65 26,
      property (Char.ofNat code).toLower = property (.ofNat code)) :
    second.all property = first.all property := by
  have folded (text : List Char) : text.all property = (text.map Char.toLower).all property := by
    rw [List.all_map]
    congr 1
    funext character
    exact (property_toLower property capitals character).symm
  rw [folded second, folded first, same]

end Text

open Text (SameLetters property_toLower)

theorem Register.ofName?_sameLetters {first second : List Char} (same : SameLetters first second) :
    ofName? (String.ofList second) = ofName? (String.ofList first) := by
  rw [ofName?, ofName?, same.uppercase]

namespace Source

namespace Reading

theorem withoutColon_toLower (characters : List Char) :
    withoutColon (characters.map Char.toLower) = (withoutColon characters).map Char.toLower := by
  have colon : (characters.map Char.toLower).getLast? = some ':' ↔
      characters.getLast? = some ':' := by
    rw [List.getLast?_map, Option.map_eq_some_iff]
    constructor
    · rintro ⟨last, ends, folded⟩
      have same := property_toLower (· == ':') (by decide) last
      rw [folded, beq_self_eq_true] at same
      rw [ends, beq_iff_eq.mp same.symm]
    · exact fun ends => ⟨':', ends, rfl⟩
  unfold withoutColon
  by_cases ends : characters.getLast? = some ':'
  · rw [if_pos (colon.mpr ends), if_pos ends, List.map_dropLast]
  · rw [if_neg (ends ∘ colon.mp), if_neg ends]

theorem isName_toLower (characters : List Char) :
    isName (characters.map Char.toLower) = isName characters := by
  have letter := property_toLower isLetter (by decide)
  have inside := property_toLower isNameCharacter (by decide)
  cases characters with
  | nil => rfl
  | cons first rest =>
      unfold isName
      rw [List.map_cons]
      dsimp only
      rw [← List.map_cons, withoutColon_toLower, ← List.map_drop, letter]
      cases (withoutColon (first :: rest)).drop 1 with
      | nil => rfl
      | cons second more =>
          rw [List.map_cons]
          dsimp only
          rw [letter, List.all_map]
          congr 3
          funext character
          exact inside character

theorem isName_sameLetters {first second : List Char} (same : SameLetters first second) :
    isName second = isName first := by
  rw [← isName_toLower second, ← isName_toLower first, same]

/-- A name begins with no character that means something else. -/
theorem isName_head {first : Char} {rest : List Char} (named : isName (first :: rest))
    {special : Char} (other : isLetter special = false) : first ≠ special := by
  rintro rfl
  rw [isName, other, Bool.false_and] at named
  cases named

theorem not_beginsNumber {first : Char} {rest : List Char} (named : isName (first :: rest)) :
    ¬beginsNumber (first :: rest) := by
  have letter : isLetter first := by
    cases other : isLetter first with
    | true => rfl
    | false => exact absurd rfl (isName_head named other)
  have notDigit : ¬first.isDigit := by
    intro decimal
    rw [isLetter, isAlpha_of_isDigit decimal, Bool.false_or, beq_iff_eq] at letter
    rw [letter] at decimal
    cases decimal
  unfold beginsNumber
  split
  · rename_i negative
    exact absurd (List.cons.inj negative).1 (isName_head named (by decide))
  · rename_i same
    rwa [← (List.cons.inj same).1]
  · exact Bool.false_ne_true

theorem ofOrdinary?_ne_register (characters : List Char) (register : Register) :
    ofOrdinary? characters ≠ some (.register register) := by
  unfold ofOrdinary? directive? integer?
  split_ifs <;> simp

theorem ofOrdinary?_identifier {characters : List Char} {name : String}
    (found : ofOrdinary? characters = some (.identifier name)) : name = String.ofList characters := by
  unfold ofOrdinary? directive? integer? at found
  split_ifs at found <;> simp_all

/-- A word is read as a name if it is one and names no register. -/
theorem of?_identifier_iff {characters : List Char} {name : String} :
    of? characters = some (.identifier name) ↔
      isName characters ∧ Register.ofName? (String.ofList characters) = none ∧
        name = String.ofList characters := by
  constructor
  · intro found
    refine ⟨of?_identifier found, ?_⟩
    rcases of?_ordinary found with other | other | ⟨_, _, other⟩ | ⟨noRegister, ordinary⟩
    · cases other
    · cases other
    · cases other
    · exact ⟨noRegister, ofOrdinary?_identifier ordinary⟩
  · rintro ⟨named, noRegister, rfl⟩
    cases characters with
    | nil => cases named
    | cons first rest =>
        have head {special : Char} (other : isLetter special = false) :
            (first :: rest).head? ≠ some special :=
          fun same => isName_head named other (Option.some.inj same)
        have alone {special : Char} (other : isLetter special = false) :
            first :: rest ≠ [special] :=
          fun same => isName_head named other (List.cons.inj same).1
        rw [of?, if_neg (alone (by decide)), if_neg (alone (by decide)), noRegister]
        dsimp only
        rw [ofOrdinary?, if_neg (head (by decide)), if_neg (not_beginsNumber named),
          if_neg (head (by decide)), if_neg (head (by decide)), if_pos named]

/-- A name is a name in another case. -/
theorem of?_identifier_sameLetters {first second : List Char} {name : String}
    (same : SameLetters first second) (found : of? first = some (.identifier name)) :
    of? second = some (.identifier (String.ofList second)) := by
  obtain ⟨named, noRegister, _⟩ := of?_identifier_iff.mp found
  apply of?_identifier_iff.mpr
  rw [isName_sameLetters same, Register.ofName?_sameLetters same]
  exact ⟨named, noRegister, rfl⟩

theorem of?_register {characters : List Char} {register : Register}
    (found : of? characters = some (.register register)) :
    Register.ofName? (String.ofList characters) = some register := by
  rcases of?_ordinary found with other | other | ⟨_, named, other⟩ | ⟨_, ordinary⟩
  · cases other
  · cases other
  · rwa [Reading.register.inj other]
  · exact absurd ordinary (ofOrdinary?_ne_register characters register)

/-- A register is the same register in another case. -/
theorem of?_register_sameLetters {first second : List Char} {register : Register}
    (same : SameLetters first second) (found : of? first = some (.register register)) :
    of? second = some (.register register) := by
  have named := of?_register found
  rw [← Register.ofName?_sameLetters same] at named
  have alone {special : Char} (other : special.isAlpha = false) : second ≠ [special] := by
    rintro rfl
    rw [Register.ofName?_isAlpha named] at other
    cases other
  rw [of?, if_neg (alone (by decide)), if_neg (alone (by decide)), named]

/-- The name of a register is one word in any case. -/
theorem of?_register_word {characters : List Char} {register : Register}
    (found : of? characters = some (.register register)) :
    ∀ character ∈ characters, Lexeme.isWordCharacter character := by
  have folded : register.name = Text.uppercase (String.ofList characters) :=
    Register.ofName?_uppercase (of?_register found)
  have letters : register.name.toList.all Lexeme.isWordCharacter := by
    cases register <;> decide +kernel
  rw [folded, Text.uppercase, String.toList_ofList, String.toList_ofList, List.all_map] at letters
  intro character member
  have word := List.all_eq_true.mp letters character member
  by_cases letter : character.isAlpha
  · exact Lexeme.isWordCharacter_of (by decide) letter
  · rwa [Function.comp, Text.toUpper_of_not_isAlpha (by simpa using letter)] at word

end Reading

end Source

end RegisterMachine
