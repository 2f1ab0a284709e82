/-
This file says what a lexeme stands for by its characters alone. The classes are separators,
registers, directives, numbers, characters, strings and names, and a lexeme is classified exactly if
it belongs to one of them.
-/

import RegisterMachine.Proofs.Isa.Register
import RegisterMachine.Proofs.Source.Boundary
import RegisterMachine.Proofs.Source.Recasing
import RegisterMachine.Proofs.Source.Widths

namespace RegisterMachine

namespace Text

/-- What holds of the small letters from the first to the last holds of every small letter. -/
theorem forall_small (holds : Char → Prop) (each : ∀ code ∈ List.range' 97 26, holds (.ofNat code))
    {character : Char} (small : character.isLower) : holds character := by
  have bounds := Bool.and_eq_true_iff.mp small
  have first : 97 ≤ character.toNat := of_decide_eq_true bounds.1
  have last : character.toNat ≤ 122 := of_decide_eq_true bounds.2
  exact forall_between holds 97 26 each first (Nat.lt_succ_of_le last)

theorem toLower_toUpper (character : Char) : character.toUpper.toLower = character.toLower := by
  by_cases small : character.isLower
  · exact forall_small (fun character => character.toUpper.toLower = character.toLower)
      (by decide) small
  · by_cases capital : character.isUpper
    · exact forall_capital (fun character => character.toUpper.toLower = character.toLower)
        (by decide) capital
    · have other : character.isAlpha = false :=
        Bool.or_eq_false_iff.mpr ⟨Bool.eq_false_of_not_eq_true capital,
          Bool.eq_false_of_not_eq_true small⟩
      rw [toUpper_of_not_isAlpha other]

end Text

open Text (SameLetters)

/-- A register is named by its name in any case. -/
theorem Register.ofName?_eq_some {characters : List Char} {named : Register} :
    ofName? (String.ofList characters) = some named ↔
      SameLetters named.name.toList characters := by
  constructor
  · intro found
    have folded : named.name.toList = characters.map Char.toUpper := by
      rw [ofName?_uppercase found, Text.uppercase, String.toList_ofList, String.toList_ofList]
    rw [SameLetters, folded, List.map_map]
    exact List.map_congr_left fun character _ => Text.toLower_toUpper character
  · intro same
    rw [ofName?_sameLetters same, String.ofList_toList, ofName?_name]

theorem Register.ofName?_eq_none {characters : List Char} :
    ofName? (String.ofList characters) = none ↔
      ∀ named : Register, ¬SameLetters named.name.toList characters := by
  simp only [Option.eq_none_iff_forall_ne_some, ne_eq, ofName?_eq_some]

namespace Source

/-- The digits of a number behind the mark of its base; decimal digits have none. -/
inductive Magnitude : (base : Nat) → (digits written : List Char) → Prop
  | decimal {digits : List Char} (nonempty : digits ≠ [])
      (each : ∀ character ∈ digits, character.isDigit) : Magnitude 10 digits digits
  | hexadecimal {mark : Char} {digits : List Char} (marks : mark = 'x' ∨ mark = 'X')
      (nonempty : digits ≠ []) (each : ∀ character ∈ digits, Reading.isHexDigit character) :
      Magnitude 16 digits ('0' :: mark :: digits)

/-- A number perhaps has a minus sign in front. -/
inductive Numeral : (negative : Bool) → (base : Nat) → (digits written : List Char) → Prop
  | plain {base : Nat} {digits written : List Char} (magnitude : Magnitude base digits written) :
      Numeral false base digits written
  | minus {base : Nat} {digits written : List Char} (magnitude : Magnitude base digits written) :
      Numeral true base digits ('-' :: written)

/-- A letter or underscore, behind which another one begins the rest. -/
inductive NameBody : List Char → Prop
  | one {first : Char} (letter : Reading.isLetter first) : NameBody [first]
  | more {first second : Char} {rest : List Char} (letter : Reading.isLetter first)
      (another : Reading.isLetter second)
      (each : ∀ character ∈ rest, Reading.isNameCharacter character) :
      NameBody (first :: second :: rest)

/-- A colon that may be left out. -/
inductive OptionalColon : List Char → Prop
  | absent : OptionalColon []
  | present : OptionalColon [':']

/-- The token of a lexeme, by the class of its characters, and the interner behind it. Only strings
and names are interned. -/
inductive Classified (interner : Interner) : List Char → Token → Interner → Prop
  | comma : Classified interner [','] .comma interner
  | endOfLine : Classified interner ['\n'] .endOfLine interner
  | register {characters : List Char} (named : Register)
      (same : SameLetters named.name.toList characters) :
      Classified interner characters (.register named) interner
  | directive {rest : List Char} (size : 4 ≤ (String.ofList ('.' :: rest)).utf8ByteSize) :
      Classified interner ('.' :: rest)
        (.directive (Directive.ofName (String.ofList ('.' :: rest)))) interner
  | integer {negative : Bool} {base : Nat} {digits written : List Char}
      (numeral : Numeral negative base digits written) :
      Classified interner written
        (.integer (Reading.clamp negative (Text.value base (digits.map Reading.digitValue))).1)
        interner
  | char {inside : List Char} {byte : UInt8}
      (one : inside.flatMap String.utf8EncodeChar = [byte]) :
      Classified interner ('\'' :: (inside ++ ['\''])) (.char byte) interner
  | string (inside : List Char) :
      Classified interner ('"' :: (inside ++ ['"']))
        (.string (interner.intern (String.ofList inside)).1)
        (interner.intern (String.ofList inside)).2
  | identifier {body colon : List Char} (named : NameBody body) (ends : OptionalColon colon)
      (noRegister : ∀ named : Register, ¬SameLetters named.name.toList (body ++ colon)) :
      Classified interner (body ++ colon)
        (.identifier (interner.intern (String.ofList (body ++ colon))).1)
        (interner.intern (String.ofList (body ++ colon))).2

section Magnitudes

variable {base : Nat} {digits written : List Char}

theorem Magnitude.base_pos (magnitude : Magnitude base digits written) : 0 < base := by
  cases magnitude <;> decide

theorem Magnitude.begins (magnitude : Magnitude base digits written) :
    ∃ first rest, written = first :: rest ∧ first.isDigit := by
  cases magnitude with
  | decimal nonempty each =>
      obtain ⟨first, rest, rfl⟩ := List.exists_cons_of_ne_nil nonempty
      exact ⟨first, rest, rfl, each first List.mem_cons_self⟩
  | hexadecimal => exact ⟨'0', _, rfl, rfl⟩

/-- A number without a sign does not begin with one. -/
theorem Magnitude.unsigned (magnitude : Magnitude base digits written) :
    ∃ first rest, written = first :: rest ∧ first ≠ '-' := by
  obtain ⟨first, rest, whole, digit⟩ := magnitude.begins
  refine ⟨first, rest, whole, ?_⟩
  rintro rfl
  cases digit

end Magnitudes

theorem NameBody.inside {body : List Char} (named : NameBody body) :
    ∀ character ∈ body, Reading.isNameCharacter character := by
  cases named with
  | one letter => simpa using Reading.isNameCharacter_of_isLetter letter
  | more letter another each =>
      rw [List.forall_mem_cons, List.forall_mem_cons]
      exact ⟨Reading.isNameCharacter_of_isLetter letter,
        Reading.isNameCharacter_of_isLetter another, each⟩

namespace Reading

section Numbers

variable {base : Nat} {negative : Bool} {digits written : List Char}

/-- The reading of a number of some sign. -/
def signed (negative : Bool) (magnitude : Nat) : Reading :=
  .integer (clamp negative magnitude).1 (clamp negative magnitude).2

/-- Digits are read against a bound, which does not change the reading. -/
theorem signed_magnitude (negative : Bool) (positive : 0 < base) (digits : List Char) :
    signed negative (magnitude base digits) =
      signed negative (Text.value base (digits.map digitValue)) := by
  rw [signed, magnitude, Text.boundedValueEqMin _ _ _ positive, clampMinMagnitudeBound]
  rfl

theorem integer?_minus (rest : List Char) :
    integer? ('-' :: rest) = (unsignedMagnitude? rest).map (signed true) := rfl

theorem integer?_plain {first : Char} (plain : first ≠ '-') (rest : List Char) :
    integer? (first :: rest) = (unsignedMagnitude? (first :: rest)).map (signed false) := by
  unfold integer?
  split
  rename_i sign others split
  split at split
  · rename_i minus
    exact absurd (List.cons.inj minus).1 plain
  · cases split
    rfl

theorem unsignedMagnitude?_of (magnitude : Magnitude base digits written) :
    unsignedMagnitude? written = some (Reading.magnitude base digits) := by
  cases magnitude with
  | decimal nonempty each =>
      rw [unsignedMagnitude?, radixDigits_decimal each]
      exact if_pos ⟨nonempty, List.all_eq_true.mpr each⟩
  | hexadecimal marks nonempty each =>
      have valid : digits ≠ [] ∧ digits.all isHexDigit := ⟨nonempty, List.all_eq_true.mpr each⟩
      rcases marks with rfl | rfl <;> exact if_pos valid

theorem radixDigits_split (written : List Char) :
    ((radixDigits written).1 = 16 ∧ ∃ mark, (mark = 'x' ∨ mark = 'X') ∧
      written = '0' :: mark :: (radixDigits written).2) ∨
    radixDigits written = (10, written) := by
  unfold radixDigits
  split
  · exact .inl ⟨rfl, 'x', .inl rfl, rfl⟩
  · exact .inl ⟨rfl, 'X', .inr rfl, rfl⟩
  · exact .inr rfl

theorem of_unsignedMagnitude? {value : Nat} (found : unsignedMagnitude? written = some value) :
    ∃ base digits, Magnitude base digits written ∧ value = magnitude base digits := by
  unfold unsignedMagnitude? at found
  rcases radixDigits_split written with ⟨base, mark, marks, whole⟩ | decimal
  · generalize radixDigits written = split at found base whole
    obtain ⟨_, digits⟩ := split
    subst base
    simp only [if_true] at found whole
    split_ifs at found with valid
    obtain ⟨nonempty, each⟩ := valid
    rw [whole]
    exact ⟨16, digits, .hexadecimal marks nonempty (List.all_eq_true.mp each),
      (Option.some.inj found).symm⟩
  · have otherBase : ¬(10 : Nat) = 16 := by decide
    rw [decimal] at found
    simp only [if_neg otherBase] at found
    split_ifs at found with valid
    obtain ⟨nonempty, each⟩ := valid
    exact ⟨10, written, .decimal nonempty (List.all_eq_true.mp each), (Option.some.inj found).symm⟩

theorem integer?_of (numeral : Numeral negative base digits written) :
    integer? written = some (signed negative (Text.value base (digits.map digitValue))) := by
  cases numeral with
  | plain magnitude =>
      obtain ⟨first, rest, rfl, plain⟩ := magnitude.unsigned
      rw [integer?_plain plain, unsignedMagnitude?_of magnitude, Option.map_some,
        signed_magnitude _ magnitude.base_pos]
  | minus magnitude =>
      rw [integer?_minus, unsignedMagnitude?_of magnitude, Option.map_some,
        signed_magnitude _ magnitude.base_pos]

theorem of_integer? {reading : Reading} (found : integer? written = some reading) :
    ∃ negative base digits, Numeral negative base digits written ∧
      reading = signed negative (Text.value base (digits.map digitValue)) := by
  have numbered {sign : Bool} {unsigned : List Char}
      (numeral : ∀ {base digits}, Magnitude base digits unsigned → Numeral sign base digits written)
      (found : (unsignedMagnitude? unsigned).map (signed sign) = some reading) :
      ∃ negative base digits, Numeral negative base digits written ∧
        reading = signed negative (Text.value base (digits.map digitValue)) := by
    obtain ⟨value, read, same⟩ := Option.map_eq_some_iff.mp found
    obtain ⟨base, digits, magnitude, rfl⟩ := of_unsignedMagnitude? read
    rw [signed_magnitude _ magnitude.base_pos] at same
    exact ⟨sign, base, digits, numeral magnitude, same.symm⟩
  cases written with
  | nil => cases found
  | cons first rest =>
      by_cases minus : first = '-'
      · subst minus
        exact numbered .minus found
      · rw [integer?_plain minus] at found
        exact numbered .plain found

theorem beginsNumber_of (numeral : Numeral negative base digits written) :
    beginsNumber written := by
  cases numeral with
  | plain magnitude =>
      obtain ⟨first, rest, rfl, digit⟩ := magnitude.begins
      unfold beginsNumber
      split
      · rename_i minus
        rw [(List.cons.inj minus).1] at digit
        cases digit
      · rename_i same
        rwa [← (List.cons.inj same).1]
      · contradiction
  | minus magnitude =>
      obtain ⟨first, rest, rfl, digit⟩ := magnitude.begins
      exact digit

end Numbers

section Names

variable {characters body colon : List Char}

/-- The colon is found again behind a name. -/
theorem withoutColon_append (named : NameBody body) (ends : OptionalColon colon) :
    withoutColon (body ++ colon) = body := by
  cases ends with
  | absent =>
      have noColon : body.getLast? ≠ some ':' := by
        intro last
        cases named.inside ':' (List.mem_of_getLast? last)
      rw [List.append_nil, withoutColon, if_neg noColon]
  | present => rw [withoutColon, if_pos List.getLast?_concat, List.dropLast_concat]

theorem withoutColon_optional (characters : List Char) :
    ∃ colon, OptionalColon colon ∧ characters = withoutColon characters ++ colon := by
  unfold withoutColon
  split
  · rename_i last
    obtain ⟨front, whole⟩ := List.getLast?_eq_some_iff.mp last
    refine ⟨[':'], .present, ?_⟩
    rw [whole, List.dropLast_concat]
  · exact ⟨[], .absent, (List.append_nil _).symm⟩

theorem isName_of (named : NameBody body) (ends : OptionalColon colon) :
    isName (body ++ colon) := by
  have body_eq := withoutColon_append named ends
  cases named with
  | one letter =>
      rw [List.singleton_append] at body_eq ⊢
      simp [isName, body_eq, letter]
  | more letter another each =>
      rw [List.cons_append, List.cons_append] at body_eq ⊢
      simp [isName, body_eq, letter, another, List.all_eq_true.mpr each]

theorem of_isName (named : isName characters) :
    ∃ body colon, NameBody body ∧ OptionalColon colon ∧ characters = body ++ colon := by
  obtain ⟨colon, ends, whole⟩ := withoutColon_optional characters
  refine ⟨withoutColon characters, colon, ?_, ends, whole⟩
  cases characters with
  | nil => cases named
  | cons first rest =>
      rw [isName, Bool.and_eq_true] at named
      obtain ⟨letter, goesOn⟩ := named
      cases front : withoutColon (first :: rest) with
      | nil =>
          rw [front, List.nil_append] at whole
          rw [← whole] at ends
          cases ends
          cases letter
      | cons other more =>
          rw [front] at goesOn whole
          obtain rfl := (List.cons.inj whole).1
          cases more with
          | nil => exact .one letter
          | cons second others =>
              rw [List.drop_one, List.tail_cons, Bool.and_eq_true] at goesOn
              exact .more letter goesOn.1 (List.all_eq_true.mp goesOn.2)

end Names

/-- One byte is one character of the narrowest ones. -/
theorem one_byte {inside : List Char} {byte : UInt8}
    (one : inside.flatMap String.utf8EncodeChar = [byte]) :
    ∃ character, inside = [character] ∧ character.toNat < 128 ∧
      byte = UInt8.ofNat character.toNat := by
  cases inside with
  | nil => cases one
  | cons character rest =>
      have bytes := congrArg List.length one
      have positive := character.utf8Size_pos
      rw [List.flatMap_cons, List.length_append, String.length_utf8EncodeChar,
        List.length_singleton] at bytes
      have none : rest = [] := by
        have empty := List.length_eq_zero_iff.mp (by omega :
          (rest.flatMap String.utf8EncodeChar).length = 0)
        cases rest with
        | nil => rfl
        | cons next more =>
            have encoded := List.flatMap_eq_nil_iff.mp empty next List.mem_cons_self
            exact absurd encoded String.utf8EncodeChar_ne_nil
      subst none
      have narrow : character.utf8Size = 1 := by simpa using bytes
      have low := UInt32.le_iff_toNat_le.mp (Char.utf8Size_eq_one_iff.mp narrow)
      rw [List.flatMap_singleton, String.utf8EncodeChar_eq_singleton narrow] at one
      refine ⟨character, rfl, Nat.lt_succ_of_le low, ?_⟩
      rw [← (List.cons.inj one).1]
      rfl

theorem byte_of_narrow {character : Char} (narrow : character.toNat < 128) :
    [character].flatMap String.utf8EncodeChar = [UInt8.ofNat character.toNat] := by
  have one : character.utf8Size = 1 :=
    Char.utf8Size_eq_one_iff.mpr (UInt32.le_iff_toNat_le.mpr (Nat.le_of_lt_succ narrow))
  rw [List.flatMap_singleton, String.utf8EncodeChar_eq_singleton one]
  rfl

theorem of?_quotedByte {inside : List Char} {byte : UInt8}
    (one : inside.flatMap String.utf8EncodeChar = [byte]) :
    of? ('\'' :: (inside ++ ['\''])) = some (.char byte) := by
  obtain ⟨character, rfl, narrow, rfl⟩ := one_byte one
  rw [of?_eq_ofOrdinary? (by decide) (by decide) (by decide)]
  have quoted : quotedByte? ['\'', character, '\''] =
      some (UInt8.ofNat character.toNat) := if_pos narrow
  change (quotedByte? ['\'', character, '\'']).map Reading.char = _
  rw [quoted]
  rfl

theorem of?_point {rest : List Char} (size : 4 ≤ (String.ofList ('.' :: rest)).utf8ByteSize) :
    of? ('.' :: rest) = some (.directive (Directive.ofName (String.ofList ('.' :: rest)))) := by
  rw [String.utf8ByteSize_ofList, ← byteLength_eq] at size
  rw [of?_eq_ofOrdinary? (by decide) (by decide) (by decide)]
  exact if_pos size

theorem of?_numeral {negative : Bool} {base : Nat} {digits written : List Char}
    (numeral : Numeral negative base digits written) :
    of? written = some (signed negative (Text.value base (digits.map digitValue))) := by
  have begins := beginsNumber_of numeral
  have number := integer?_of numeral
  have never : [',', '\n', '.'].any (fun first => first.isDigit || first == '-') = false := by
    decide
  obtain ⟨first, rest, rfl, head⟩ :
      ∃ first rest, written = first :: rest ∧ (first.isDigit || first == '-') = true := by
    cases numeral with
    | plain magnitude =>
        obtain ⟨first, rest, whole, digit⟩ := magnitude.begins
        exact ⟨first, rest, whole, by rw [digit, Bool.true_or]⟩
    | minus => exact ⟨'-', _, rfl, rfl⟩
  have other (special : Char) (member : special ∈ [',', '\n', '.']) : first ≠ special :=
    fun same => List.any_eq_false.mp never special member (same ▸ head)
  have noLetter : first.isAlpha = false := by
    rw [Bool.or_eq_true, beq_iff_eq] at head
    rcases head with digit | rfl
    · exact isAlpha_of_isDigit digit
    · rfl
  have noPoint : (first :: rest).head? ≠ some '.' := fun same =>
    other '.' (by decide) (Option.some.inj same)
  rw [of?_eq_ofOrdinary? (other ',' (by decide)) (other '\n' (by decide)) noLetter, ofOrdinary?,
    if_neg noPoint, if_pos begins, number]

theorem of?_register_iff {characters : List Char} {named : Register} :
    of? characters = some (.register named) ↔ SameLetters named.name.toList characters := by
  constructor
  · exact fun found => Register.ofName?_eq_some.mp (of?_register found)
  · intro same
    have written : of? named.name.toList = some (.register named) := by
      cases named <;> decide +kernel
    exact of?_register_sameLetters same written

theorem of?_comma {characters : List Char} (found : of? characters = some .comma) :
    characters = [','] := by
  have ordinary : ofOrdinary? characters ≠ some .comma := by
    unfold ofOrdinary? directive? integer?
    split_ifs <;> simp
  unfold of? at found
  split_ifs at found with comma newline
  · exact comma
  · cases found
  · split at found
    · cases found
    · exact absurd found ordinary

end Reading

open Reading

theorem classify_eq (interner : Interner) (line : Nat) (characters : List Char) :
    (classify interner line characters).value =
      (Reading.of? characters).map (Token.ofReading interner) := by
  unfold classify
  cases Reading.of? characters <;> rfl

/-- A reading that is no separator and no register makes a token of its class. -/
theorem classified_of_ordinary {interner : Interner} {characters : List Char} {reading : Reading}
    (noRegister : Register.ofName? (String.ofList characters) = none)
    (ordinary : ofOrdinary? characters = some reading) :
    Classified interner characters (Token.ofReading interner reading).1
      (Token.ofReading interner reading).2 := by
  unfold ofOrdinary? directive? at ordinary
  split_ifs at ordinary with point size number quote doubleQuote named
  · obtain rfl := Option.some.inj ordinary
    obtain ⟨rest, rfl⟩ := List.head?_eq_some_iff.mp point
    rw [byteLength_eq, ← String.utf8ByteSize_ofList] at size
    exact .directive size
  · obtain ⟨negative, base, digits, numeral, rfl⟩ := of_integer? ordinary
    exact .integer numeral
  · obtain ⟨byte, quoted, rfl⟩ := Option.map_eq_some_iff.mp ordinary
    obtain ⟨character, rfl, narrow, rfl⟩ := quotedByte?_eq_some quoted
    exact .char (byte_of_narrow narrow)
  · obtain ⟨inside, between, rfl⟩ := Option.map_eq_some_iff.mp ordinary
    rw [betweenQuotes?_eq_some between]
    exact .string inside
  · obtain rfl := Option.some.inj ordinary
    obtain ⟨body, colon, name, ends, rfl⟩ := of_isName named
    exact .identifier name ends (Register.ofName?_eq_none.mp noRegister)

/-- What a lexeme is read as is what it was written for. -/
theorem classified_of_value {interner after : Interner} {line : Nat} {characters : List Char}
    {token : Token} (read : (classify interner line characters).value = some (token, after)) :
    Classified interner characters token after := by
  rw [classify_eq, Option.map_eq_some_iff] at read
  obtain ⟨reading, found, same⟩ := read
  obtain ⟨rfl, rfl⟩ := Prod.mk.inj same
  rcases of?_ordinary found with rfl | rfl | ⟨named, _, rfl⟩ | ⟨noRegister, ordinary⟩
  · rw [of?_comma found]
    exact .comma
  · rw [of?_endOfLine found]
    exact .endOfLine
  · exact .register named (of?_register_iff.mp found)
  · exact classified_of_ordinary noRegister ordinary

/-- A lexeme is classified exactly if its characters belong to one of the classes, as the token of
this class, and only the text of a string or a name is interned. -/
theorem classify_value_iff (interner : Interner) (line : Nat) (characters : List Char)
    (token : Token) (after : Interner) :
    (classify interner line characters).value = some (token, after) ↔
      Classified interner characters token after := by
  constructor
  · exact classified_of_value
  · intro classified
    rw [classify_eq, Option.map_eq_some_iff]
    cases classified with
    | comma => exact ⟨.comma, rfl, rfl⟩
    | endOfLine => exact ⟨.endOfLine, rfl, rfl⟩
    | register named same => exact ⟨.register named, of?_register_iff.mpr same, rfl⟩
    | directive size => exact ⟨_, of?_point size, rfl⟩
    | integer numeral => exact ⟨_, of?_numeral numeral, rfl⟩
    | char one => exact ⟨_, of?_quotedByte one, rfl⟩
    | string inside => exact ⟨_, of?_string inside, rfl⟩
    | identifier named ends noRegister =>
        refine ⟨_, of?_identifier_iff.mpr ⟨isName_of named ends, ?_, rfl⟩, rfl⟩
        exact Register.ofName?_eq_none.mpr noRegister

end Source

end RegisterMachine
