/-
This file proves that the quotes of a string are cut off at character boundaries. Only the first and
the last byte of a lexeme are looked at, and the byte that encodes a quote occurs in the encoding of
no other character.
-/

import RegisterMachine.Proofs.Source.Written

namespace RegisterMachine.Source

/-- The byte that encodes a double quote. -/
def quoteByte : UInt8 := 0x22

/-- The bytes of a text are those of its characters. -/
theorem utf8_toList (text : String) :
    text.toUTF8.data.toList = text.toList.flatMap String.utf8EncodeChar := by
  have encoded : text.toUTF8 = text.toList.utf8Encode := by
    rw [← String.toByteArray_ofList, String.ofList_toList]
    rfl
  rw [encoded, List.utf8Encode, List.toList_data_toByteArray]

/-- The first byte of a wider character is above the byte of a quote. -/
theorem wide_ne_quoteByte {bits high : UInt8} (above : quoteByte < high) :
    bits ||| high ≠ quoteByte := by
  intro same
  have least : high.toNat ≤ bits.toNat ||| high.toNat := Nat.right_le_or
  rw [← UInt8.toNat_or, same] at least
  exact Nat.not_lt_of_le least (UInt8.lt_iff_toNat_lt.mp above)

/-- The byte of a quote occurs in the encoding of a quote alone. -/
theorem quote_of_byte {character : Char} (member : quoteByte ∈ String.utf8EncodeChar character) :
    character = '"' := by
  obtain ⟨index, inside, found⟩ := List.getElem_of_mem member
  -- A byte that can begin a character stands only at the beginning of one.
  have begins : (String.utf8EncodeChar character)[index].IsUTF8FirstByte := by
    rw [found]
    decide
  have first : index = 0 := UInt8.isUTF8FirstByte_getElem_utf8EncodeChar.mp begins
  subst first
  rcases character.utf8Size_eq with one | two | three | four
  · have small := UInt32.le_iff_toNat_le.mp (Char.utf8Size_eq_one_iff.mp one)
    simp only [String.utf8EncodeChar_eq_singleton one, List.getElem_cons_zero] at found
    have low : character.val.toNat % 256 = 34 := by
      rw [← UInt32.toNat_toUInt8, found]
      rfl
    have same : character.toNat = '"'.toNat := by
      change character.val.toNat = 34
      change character.val.toNat ≤ 127 at small
      omega
    exact Char.toNat_inj.mp same
  · simp only [String.utf8EncodeChar_eq_cons_cons two, List.getElem_cons_zero] at found
    exact absurd found (wide_ne_quoteByte (by decide))
  · simp only [String.utf8EncodeChar_eq_cons_cons_cons three, List.getElem_cons_zero] at found
    exact absurd found (wide_ne_quoteByte (by decide))
  · simp only [String.utf8EncodeChar_eq_cons_cons_cons_cons four, List.getElem_cons_zero] at found
    exact absurd found (wide_ne_quoteByte (by decide))

section Ends

variable {characters : List Char}

theorem head?_of_quoteByte
    (first : (characters.flatMap String.utf8EncodeChar).head? = some quoteByte) :
    characters.head? = some '"' := by
  cases characters with
  | nil => cases first
  | cons character rest =>
      rw [List.flatMap_cons, List.head?_append_of_ne_nil _ String.utf8EncodeChar_ne_nil] at first
      rw [List.head?_cons, quote_of_byte (List.mem_of_head? first)]

theorem getLast?_of_quoteByte
    (last : (characters.flatMap String.utf8EncodeChar).getLast? = some quoteByte) :
    characters.getLast? = some '"' := by
  rcases List.eq_nil_or_concat' characters with rfl | ⟨front, character, rfl⟩
  · cases last
  · rw [List.flatMap_append, List.flatMap_singleton,
      List.getLast?_append_of_ne_nil _ String.utf8EncodeChar_ne_nil] at last
    rw [List.getLast?_concat, quote_of_byte (List.mem_of_getLast? last)]

end Ends

/-- The test for a string: two bytes at least, and quotes at both ends. -/
structure HasQuotes (text : String) : Prop where
  size : 2 ≤ text.toUTF8.data.toList.length
  first : text.toUTF8.data.toList.head? = some quoteByte
  last : text.toUTF8.data.toList.getLast? = some quoteByte

/-- The text between the quotes is cut out from the second byte up to the last one, both of which
begin a character. -/
structure CutsQuotes (text inside : String) : Prop where
  whole : text = "\"" ++ inside ++ "\""
  start : String.Pos.Raw.IsValid text ⟨1⟩
  stop : String.Pos.Raw.IsValid text ⟨text.utf8ByteSize - 1⟩
  between : String.Pos.Raw.extract text ⟨1⟩ ⟨text.utf8ByteSize - 1⟩ = inside
  reading : Reading.of? text.toList = some (.string inside)

/-- Characters with quotes at both ends, of which there are two. -/
theorem HasQuotes.characters {text : String} (quoted : HasQuotes text) :
    ∃ inside, text.toList = '"' :: (inside ++ ['"']) := by
  obtain ⟨size, first, last⟩ := quoted
  rw [utf8_toList] at size first last
  obtain ⟨rest, whole⟩ := List.head?_eq_some_iff.mp (head?_of_quoteByte first)
  have lastQuote := getLast?_of_quoteByte last
  rw [whole] at size lastQuote
  rcases List.eq_nil_or_concat' rest with rfl | ⟨inside, character, rfl⟩
  · have one : (['"'].flatMap String.utf8EncodeChar).length = 1 := by decide
    omega
  · rw [← List.cons_append, List.getLast?_concat, Option.some.injEq] at lastQuote
    exact ⟨inside, by rw [whole, lastQuote]⟩

theorem cutsQuotes_whole (inside : String) : CutsQuotes ("\"" ++ inside ++ "\"") inside where
  whole := rfl
  start := by
    rw [String.Pos.Raw.isValid_iff_exists_append]
    exact ⟨"\"", inside ++ "\"", String.append_assoc, rfl⟩
  stop := by
    rw [String.Pos.Raw.isValid_iff_exists_append]
    refine ⟨"\"" ++ inside, "\"", rfl, ?_⟩
    rw [String.utf8ByteSize_append]
    rfl
  between := by
    have extracted := String.extract_of_valid ['"'] inside.toList ['"']
    have stop : ("\"" ++ inside ++ "\"").utf8ByteSize - 1 = 1 + inside.utf8ByteSize := by
      rw [String.utf8ByteSize_append, String.utf8ByteSize_append]
      rfl
    have whole : String.ofList (['"'] ++ inside.toList ++ ['"']) = "\"" ++ inside ++ "\"" := by
      rw [String.ofList_append, String.ofList_append, String.ofList_toList]
    rw [whole, String.utf8Len_toList, String.ofList_toList] at extracted
    rw [stop]
    exact extracted
  reading := by
    rw [String.toList_append, String.toList_append]
    exact (Reading.of?_string inside.toList).trans (by rw [String.ofList_toList])

/-- Wherever the test for a string succeeds, its quotes can be cut off. -/
theorem HasQuotes.cuts {text : String} (quoted : HasQuotes text) :
    ∃ inside, CutsQuotes text inside := by
  obtain ⟨inside, characters⟩ := quoted.characters
  have whole : text = "\"" ++ String.ofList inside ++ "\"" := by
    apply String.toList_inj.mp
    simp [characters]
  exact ⟨String.ofList inside, whole ▸ cutsQuotes_whole _⟩

end RegisterMachine.Source
