/-
This file says how names, numbers, characters and strings are written. Each is one lexeme that is
found again in front of a blank or a comma, and that is read as what was written.
-/

import RegisterMachine.Proofs.Source.Wording

namespace RegisterMachine

theorem Text.isDigit_of_mem_decimal (number : Nat) :
    ∀ character ∈ Nat.toDigits 10 number, character.isDigit :=
  fun _ member => Nat.isDigit_of_mem_toDigits (by decide) (by decide) member

theorem Text.isDigit_of_mem_padded (width number : Nat) :
    ∀ character ∈ Text.paddedDigits 10 width number, character.isDigit := by
  intro character member
  rw [Text.paddedDigits, List.leftpad, List.mem_append] at member
  rcases member with padding | digit
  · rw [(List.mem_replicate.mp padding).2]
    rfl
  · exact Text.isDigit_of_mem_decimal number character digit

/-- A character that is no letter has no capital. -/
theorem Text.toUpper_of_not_isAlpha {character : Char} (other : character.isAlpha = false) :
    character.toUpper = character := by
  have notLower : character.isLower = false := (Bool.or_eq_false_iff.mp other).2
  refine dif_neg fun small => ?_
  have lower : character.isLower = true :=
    Bool.and_eq_true_iff.mpr ⟨decide_eq_true small.1, decide_eq_true small.2⟩
  rw [notLower] at lower
  cases lower

theorem Register.ofName?_uppercase {text : String} {named : Register}
    (found : ofName? text = some named) : named.name = Text.uppercase text := by
  have same := List.find?_some found
  exact beq_iff_eq.mp same

/-- The name of a register begins with a letter. -/
theorem Register.ofName?_isAlpha {first : Char} {rest : List Char} {named : Register}
    (found : ofName? (String.ofList (first :: rest)) = some named) : first.isAlpha := by
  have folded := ofName?_uppercase found
  have head : named.name.toList.head? = some first.toUpper := by
    rw [folded, Text.uppercase, String.toList_ofList, String.toList_ofList]
    rfl
  have capital : named.name.toList.head?.all Char.isAlpha := by
    cases named <;> decide +kernel
  by_contra other
  rw [head, Text.toUpper_of_not_isAlpha (by simpa using other)] at capital
  exact other capital

namespace Source

/-- What can stand behind a lexeme so that the lexeme ends there. -/
def Separated (rest : List Char) : Prop :=
  ∀ next ∈ rest.head?, next = ' ' ∨ next = ','

namespace Lexeme

/-- A lexeme that is found again where it is written, and that is neither left out nor a line
end. -/
structure Stands (lexeme : Lexeme) : Prop where
  kept : lexeme.isSkipped = false
  inLine : lexeme.kind ≠ .newline
  found : ∀ rest, Separated rest → ∃ first others, lexeme.text = first :: others ∧
    Front.of first (others ++ rest) = .lexeme lexeme rest

/-- The characters that end a word. -/
def wordEnds : List Char :=
  [' ', '\t', '\r', '\x0c', '\n', ',', ';', '#', '"', '\'']

theorem isWordCharacter_iff (character : Char) :
    isWordCharacter character ↔ character ∉ wordEnds := by
  simp [wordEnds, isWordCharacter, isBlank, beginsComment, and_assoc]

/-- No character that ends a word has a property that makes a word. -/
theorem isWordCharacter_of {makes : Char → Bool} {character : Char}
    (never : wordEnds.any makes = false) (made : makes character) : isWordCharacter character := by
  rw [isWordCharacter_iff]
  exact fun special => List.any_eq_false.mp never character special made

theorem isWordCharacter_of_isDigit {character : Char} (decimal : character.isDigit) :
    isWordCharacter character :=
  isWordCharacter_of (by decide) decimal

theorem Stands.word {characters : List Char} (nonempty : characters ≠ [])
    (inside : ∀ character ∈ characters, isWordCharacter character) :
    Stands ⟨.word, characters⟩ where
  kept := rfl
  inLine := nofun
  found := by
    intro rest separated
    obtain ⟨first, others, rfl⟩ := List.exists_cons_of_ne_nil nonempty
    rw [List.forall_mem_cons] at inside
    refine ⟨first, others, rfl, ?_⟩
    rw [Front.of_word inside.1, Front.run_ends inside.2]
    intro next begins
    rcases separated next begins with rfl | rfl <;> decide

theorem Stands.string {inside : List Char} (noQuote : '"' ∉ inside) (noNewline : '\n' ∉ inside) :
    Stands ⟨.quotedString, '"' :: (inside ++ ['"'])⟩ where
  kept := rfl
  inLine := nofun
  found := by
    intro rest _
    have whole : inside ++ ['"'] ++ rest = inside ++ '"' :: rest := List.append_assoc ..
    have goesOn : ∀ character ∈ inside, (character != '"' && character != '\n') = true := by
      intro character member
      have other : character ≠ '"' ∧ character ≠ '\n' :=
        ⟨fun same => noQuote (same ▸ member), fun same => noNewline (same ▸ member)⟩
      simp [other]
    refine ⟨'"', inside ++ ['"'], rfl, ?_⟩
    change Front.quotedString _ = _
    rw [whole, Front.quotedString, List.takeWhile_append_of_pos goesOn,
      List.dropWhile_append_of_pos goesOn]
    simp

theorem Stands.char {character : Char} (other : character ≠ '\n') :
    Stands ⟨.quotedChar, ['\'', character, '\'']⟩ where
  kept := rfl
  inLine := nofun
  found := fun _ _ => ⟨'\'', [character, '\''], rfl, if_neg other⟩

end Lexeme

namespace Reading

theorem withoutColon_split (characters : List Char) :
    ∃ colon, characters = withoutColon characters ++ colon ∧ ∀ character ∈ colon,
      character = ':' := by
  unfold withoutColon
  split
  · rename_i last
    obtain ⟨front, whole⟩ := List.getLast?_eq_some_iff.mp last
    refine ⟨[':'], ?_, by simp⟩
    rw [whole, List.dropLast_concat]
  · exact ⟨[], (List.append_nil _).symm, nofun⟩

theorem isNameCharacter_of_isLetter {character : Char} (letter : isLetter character) :
    isNameCharacter character := by
  rw [isLetter, Bool.or_eq_true] at letter
  rw [isNameCharacter, Char.isAlphanum, Bool.or_eq_true, Bool.or_eq_true]
  exact letter.imp_left .inl

/-- A name is made of letters, digits and underscores, and a colon may end it. -/
theorem isName_inside {characters : List Char} (named : isName characters) :
    ∀ character ∈ characters, isNameCharacter character ∨ character = ':' := by
  unfold isName at named
  split at named
  · exact List.forall_mem_nil _
  · rename_i first rest
    rw [Bool.and_eq_true] at named
    obtain ⟨begins, goesOn⟩ := named
    obtain ⟨colon, whole, colons⟩ := withoutColon_split (first :: rest)
    have inside : ∀ character ∈ withoutColon (first :: rest), isNameCharacter character := by
      cases front : withoutColon (first :: rest) with
      | nil => exact List.forall_mem_nil _
      | cons other more =>
          rw [front] at whole goesOn
          rw [List.forall_mem_cons, ← (List.cons.inj whole).1]
          refine ⟨isNameCharacter_of_isLetter begins, ?_⟩
          cases more with
          | nil => exact List.forall_mem_nil _
          | cons second others =>
              rw [List.drop_one, List.tail_cons, Bool.and_eq_true] at goesOn
              rw [List.forall_mem_cons]
              exact ⟨isNameCharacter_of_isLetter goesOn.1, List.all_eq_true.mp goesOn.2⟩
    rw [whole, List.forall_mem_append]
    exact ⟨fun character member => .inl (inside character member),
      fun character member => .inr (colons character member)⟩

theorem of?_identifier {characters : List Char} {name : String}
    (found : of? characters = some (.identifier name)) : isName characters := by
  rcases of?_ordinary found with other | other | ⟨_, _, other⟩ | ⟨_, ordinary⟩
  · cases other
  · cases other
  · cases other
  unfold ofOrdinary? directive? integer? at ordinary
  split_ifs at ordinary
  · cases ordinary
  · obtain ⟨_, _, other⟩ := Option.map_eq_some_iff.mp ordinary
    cases other
  · obtain ⟨_, _, other⟩ := Option.map_eq_some_iff.mp ordinary
    cases other
  · obtain ⟨_, _, other⟩ := Option.map_eq_some_iff.mp ordinary
    cases other
  · assumption

theorem of?_identifier_word {characters : List Char} {name : String}
    (found : of? characters = some (.identifier name)) :
    ∀ character ∈ characters, Lexeme.isWordCharacter character := by
  intro character member
  have inside := isName_inside (of?_identifier found) character member
  have never : Lexeme.wordEnds.any (fun other => isNameCharacter other || other == ':') =
      false := by
    decide
  exact Lexeme.isWordCharacter_of never (by simpa using inside)

/-- A name is one word. -/
theorem stands_name {text : String} (found : of? text.toList = some (.identifier text)) :
    Lexeme.Stands ⟨.word, text.toList⟩ := by
  apply Lexeme.Stands.word
  · intro none
    have named := of?_identifier found
    rw [none] at named
    cases named
  · exact of?_identifier_word found

/-- A lexeme that begins with no letter is no register. -/
theorem of?_eq_ofOrdinary? {first : Char} {rest : List Char} (notComma : first ≠ ',')
    (notNewline : first ≠ '\n') (notAlpha : first.isAlpha = false) :
    of? (first :: rest) = ofOrdinary? (first :: rest) := by
  have noRegister : Register.ofName? (String.ofList (first :: rest)) = none := by
    cases found : Register.ofName? (String.ofList (first :: rest)) with
    | none => rfl
    | some named =>
        rw [Register.ofName?_isAlpha found] at notAlpha
        cases notAlpha
  rw [of?, if_neg (by simp [notComma]), if_neg (by simp [notNewline]), noRegister]

theorem toNat_ofNat {code : Nat} (narrow : code < 128) : (Char.ofNat code).toNat = code := by
  have valid : code.isValidChar := .inl (by omega)
  rw [Char.ofNat, dif_pos valid]
  rfl

theorem of?_char {byte : UInt8} (narrow : byte.toNat < 128) :
    of? ['\'', Char.ofNat byte.toNat, '\''] = some (.char byte) := by
  rw [of?_eq_ofOrdinary? (by decide) (by decide) (by decide)]
  have quoted : quotedByte? ['\'', Char.ofNat byte.toNat, '\''] = some byte := by
    simp only [quotedByte?, toNat_ofNat narrow, if_pos narrow, UInt8.ofNat_toNat]
  simp only [ofOrdinary?, quoted]
  rfl

theorem of?_string (inside : List Char) :
    of? ('"' :: (inside ++ ['"'])) = some (.string (String.ofList inside)) := by
  rw [of?_eq_ofOrdinary? (by decide) (by decide) (by decide)]
  have between : betweenQuotes? ('"' :: (inside ++ ['"'])) = some inside := by
    simp only [betweenQuotes?, List.getLast?_concat, if_true, List.dropLast_concat]
  simp only [ofOrdinary?, between]
  rfl

section Numbers

variable {digits : List Char}

theorem radixDigits_decimal (decimal : ∀ character ∈ digits, character.isDigit) :
    radixDigits digits = (10, digits) := by
  unfold radixDigits
  split
  · cases decimal 'x' (by simp)
  · cases decimal 'X' (by simp)
  · rfl

theorem beginsNumber_decimal (nonempty : digits ≠ [])
    (decimal : ∀ character ∈ digits, character.isDigit) : beginsNumber digits := by
  unfold beginsNumber
  split
  · cases decimal '-' (by simp)
  · exact decimal _ (by simp)
  · exact absurd rfl nonempty

theorem integer?_decimal (nonempty : digits ≠ [])
    (decimal : ∀ character ∈ digits, character.isDigit) :
    integer? digits = some (.integer (clamp false (magnitude 10 digits)).1
      (clamp false (magnitude 10 digits)).2) := by
  have unsigned : unsignedMagnitude? digits = some (magnitude 10 digits) := by
    rw [unsignedMagnitude?, radixDigits_decimal decimal]
    exact if_pos ⟨nonempty, List.all_eq_true.mpr decimal⟩
  unfold integer?
  split
  rename_i negative others split
  split at split
  · cases decimal '-' (by simp)
  · cases split
    rw [unsigned]
    rfl

end Numbers

/-- Digits come before all letters. -/
theorem isAlpha_of_isDigit {character : Char} (decimal : character.isDigit) :
    character.isAlpha = false := by
  have low : character.val ≤ '9'.val := of_decide_eq_true (Bool.and_eq_true_iff.mp decimal).2
  have beforeCapital : character.val < 'A'.val := UInt32.lt_of_le_of_lt low (by decide)
  have beforeSmall : character.val < 'a'.val := UInt32.lt_of_le_of_lt low (by decide)
  have notCapital : ¬character.isUpper := fun capital =>
    absurd (of_decide_eq_true capital).1 (UInt32.not_le.mpr beforeCapital)
  have notSmall : ¬character.isLower := fun small =>
    absurd (of_decide_eq_true (Bool.and_eq_true_iff.mp small).1) (UInt32.not_le.mpr beforeSmall)
  exact Bool.or_eq_false_iff.mpr ⟨Bool.eq_false_iff.mpr notCapital, Bool.eq_false_iff.mpr notSmall⟩

theorem digitValue_decimal {character : Char} (decimal : character.isDigit) :
    digitValue character = character.toNat - '0'.toNat :=
  if_pos decimal

/-- The digits of a number are read as the number. -/
theorem of?_integer (value : UInt32) :
    of? (Nat.toDigits 10 value.toNat) = some (.integer value none) := by
  have decimal := Text.isDigit_of_mem_decimal value.toNat
  have nonempty : Nat.toDigits 10 value.toNat ≠ [] := Nat.toDigits_ne_nil
  have whole : Text.value 10 ((Nat.toDigits 10 value.toNat).map digitValue) = value.toNat := by
    rw [List.map_congr_left fun character member => digitValue_decimal (decimal character member),
      Text.value, List.foldl_map]
    exact Nat.ofDigitChars_toDigits (by decide) (by decide)
  have small := value.toNat_lt
  have clamped : clamp false value.toNat = (value, none) := by
    rw [clamp, if_neg Bool.false_ne_true, if_neg (by omega), UInt32.ofNat_toNat]
  have number := integer?_decimal nonempty decimal
  rw [magnitude, Text.boundedValueEqMin _ _ _ (by decide), whole, clampMinMagnitudeBound,
    clamped] at number
  have begins := beginsNumber_decimal nonempty decimal
  obtain ⟨first, rest, digits⟩ := List.exists_cons_of_ne_nil nonempty
  rw [digits] at decimal number begins ⊢
  have isDigit := decimal first List.mem_cons_self
  have never : [',', '\n', '.'].any Char.isDigit = false := by decide
  have other (character : Char) (special : character ∈ [',', '\n', '.']) : first ≠ character :=
    fun same => List.any_eq_false.mp never character special (same ▸ isDigit)
  have noPoint : (first :: rest).head? ≠ some '.' := fun same =>
    other '.' (by decide) (Option.some.inj same)
  rw [of?_eq_ofOrdinary? (other ',' (by decide)) (other '\n' (by decide))
    (isAlpha_of_isDigit isDigit), ofOrdinary?, if_neg noPoint, if_pos begins, number]

end Reading

theorem Lexeme.Stands.noNewline {lexeme : Lexeme} (stands : lexeme.Stands) :
    '\n' ∉ lexeme.text := by
  obtain ⟨first, others, _, found⟩ := stands.found [] nofun
  rcases Front.of_onOneLine found with ⟨newline, _⟩ | ⟨_, none⟩
  · exact absurd newline stands.inLine
  · exact none

/-- A lexeme is what an operand is written as, and every token of it is the operand again. -/
structure Operand.WrittenAs (interner : Interner) (operand : Operand) (lexeme : Lexeme)
    (reading : Reading) : Prop where
  present : operand ≠ .absent
  render : operand.render interner = .ok (String.ofList lexeme.text)
  stands : lexeme.Stands
  read : Reading.of? lexeme.text = some reading
  again : ∀ names (token : Token), token.Represents names reading →
    ∃ other, token.operand? = some other ∧ Operand.Alike interner names operand other

section Operands

variable {interner : Interner}

theorem Operand.register_writtenAs (named : Register) :
    Operand.WrittenAs interner (.register named) ⟨.word, named.name.toList⟩
      (.register named) where
  present := nofun
  render := by
    rw [String.ofList_toList]
    rfl
  stands := by
    have nonempty : named.name.toList ≠ [] := by cases named <;> decide +kernel
    have inside : named.name.toList.all Lexeme.isWordCharacter := by
      cases named <;> decide +kernel
    exact .word nonempty (List.all_eq_true.mp inside)
  read := by cases named <;> decide +kernel
  again := by
    rintro names token ⟨⟩
    exact ⟨_, rfl, .plain _ rfl⟩

/-- A number is written with decimal digits, whatever it was read from. -/
theorem Operand.integer_writtenAs (value : UInt32) :
    Operand.WrittenAs interner (.integer value) ⟨.word, Nat.toDigits 10 value.toNat⟩
      (.integer value none) where
  present := nofun
  render := congrArg Except.ok Nat.repr_eq_ofList_toDigits
  stands := .word Nat.toDigits_ne_nil fun character member =>
    Lexeme.isWordCharacter_of_isDigit (Text.isDigit_of_mem_decimal _ character member)
  read := Reading.of?_integer value
  again := by
    rintro names token ⟨⟩
    exact ⟨_, rfl, .plain _ rfl⟩

theorem Operand.char_writtenAs {byte : UInt8} (writable : (Reading.char byte).IsWritable) :
    Operand.WrittenAs interner (.char byte)
      ⟨.quotedChar, ['\'', Char.ofNat byte.toNat, '\'']⟩ (.char byte) where
  present := nofun
  render := rfl
  stands := by
    refine .char fun newline => ?_
    have code := Reading.toNat_ofNat writable.1
    rw [newline] at code
    exact writable.2 (UInt8.toNat_inj.mp code.symm)
  read := Reading.of?_char writable.1
  again := by
    rintro names token ⟨⟩
    exact ⟨_, rfl, .plain _ rfl⟩

theorem Operand.string_writtenAs {name : Symbol} {text : String}
    (spelled : interner.Spells name text) (writable : (Reading.string text).IsWritable) :
    Operand.WrittenAs interner (.string name)
      ⟨.quotedString, '"' :: (text.toList ++ ['"'])⟩ (.string text) where
  present := nofun
  render := by
    have whole : "\"" ++ text ++ "\"" = String.ofList ('"' :: (text.toList ++ ['"'])) := by
      rw [← String.toList_inj]
      simp
    rw [Operand.render, spelled.resolve, okBind, whole]
    rfl
  stands := .string writable.1 writable.2
  read := by
    rw [Reading.of?_string, String.ofList_toList]
  again := by
    rintro names token represents
    cases represents with
    | string spelledOther => exact ⟨_, rfl, .string ⟨text, spelled, spelledOther⟩⟩

theorem Operand.symbol_writtenAs {name : Symbol} {text : String}
    (spelled : interner.Spells name text) (writable : (Reading.identifier text).IsWritable) :
    Operand.WrittenAs interner (.symbol name) ⟨.word, text.toList⟩ (.identifier text) where
  present := nofun
  render := by rw [Operand.render, spelled.resolve, String.ofList_toList]
  stands := Reading.stands_name writable
  read := writable
  again := by
    rintro names token represents
    cases represents with
    | identifier spelledOther => exact ⟨_, rfl, .symbol ⟨text, spelled, spelledOther⟩⟩

/-- An operand that was read can be written down and read again. -/
theorem Token.IsWritable.operand {token : Token} {operand : Operand}
    (writable : token.IsWritable interner) (stands : token.operand? = some operand) :
    ∃ lexeme reading, operand.WrittenAs interner lexeme reading := by
  obtain ⟨reading, represents, sound⟩ := writable
  cases represents with
  | comma | endOfLine | directive => cases stands
  | register named =>
      cases stands
      exact ⟨_, _, Operand.register_writtenAs named⟩
  | integer value excess =>
      cases stands
      exact ⟨_, _, Operand.integer_writtenAs value⟩
  | char byte =>
      cases stands
      exact ⟨_, _, Operand.char_writtenAs sound⟩
  | string spelled =>
      cases stands
      exact ⟨_, _, Operand.string_writtenAs spelled sound⟩
  | identifier spelled =>
      cases stands
      exact ⟨_, _, Operand.symbol_writtenAs spelled sound⟩

end Operands

end Source

end RegisterMachine
