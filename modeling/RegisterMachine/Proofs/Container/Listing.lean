/-
This file proves that a listing loses nothing. Its lines are the rows of the code in order, the
bytes of a row are read back from its line, and the text of a line tells whether its row is an
instruction, is refused, or is too short.
-/

import Mathlib.Algebra.Ring.Nat
import RegisterMachine.Container.Listing
import RegisterMachine.Proofs.Container.Rows
import RegisterMachine.Proofs.Instruction.Disassembly

namespace RegisterMachine

namespace DecodeError

theorem message_opcodeNotFound (byte : UInt8) :
    (opcodeNotFound byte).message.toList =
      "unknown opcode ".toList ++ '0' :: 'x' :: Text.paddedDigits 16 2 byte.toNat := by
  unfold message
  rw [String.toList_append, Text.hexadecimal_toList]

theorem message_invalidAddressingMode (operandIndex bits : Nat) :
    (invalidAddressingMode operandIndex bits).message.toList =
      "unassigned addressing mode ".toList ++ '0' :: 'b' :: (Text.paddedDigits 2 3 bits ++
        ' ' :: ("in operand ".toList ++ Nat.toDigits 10 operandIndex)) := by
  have place : (toString " in operand " ++ toString operandIndex).toList =
      ' ' :: ("in operand ".toList ++ Nat.toDigits 10 operandIndex) := by
    rw [String.toList_append, Nat.toString_eq_repr, Nat.toList_repr]
    rfl
  unfold message
  rw [String.toList_append, String.toList_append, Text.binary_toList, place]
  simp only [List.append_assoc, List.cons_append]

theorem opcodeNotFound_ne {byte : UInt8} {operandIndex bits : Nat} :
    (opcodeNotFound byte).message ≠ (invalidAddressingMode operandIndex bits).message := by
  intro same
  have third := congrArg (fun text => text.toList[2]?) same
  rw [message_opcodeNotFound, message_invalidAddressingMode,
    List.getElem?_append_left (by decide), List.getElem?_append_left (by decide)] at third
  exact absurd third (by decide)

/-- Decoding is refused in different words for different reasons. -/
theorem message_injective {first second : DecodeError} (same : first.message = second.message) :
    first = second := by
  have spelled := congrArg String.toList same
  cases first with
  | opcodeNotFound byte =>
      cases second with
      | opcodeNotFound other =>
          rw [message_opcodeNotFound, message_opcodeNotFound] at spelled
          have digits := (List.cons.inj (List.cons.inj (List.append_cancel_left spelled)).2).2
          rw [UInt8.toNat_inj.mp (Text.paddedDigits_injective (by decide) (by decide) digits)]
      | invalidAddressingMode => exact absurd same opcodeNotFound_ne
  | invalidAddressingMode operandIndex bits =>
      cases second with
      | opcodeNotFound => exact absurd same.symm opcodeNotFound_ne
      | invalidAddressingMode otherIndex otherBits =>
          rw [message_invalidAddressingMode, message_invalidAddressingMode] at spelled
          have parts := (List.cons.inj (List.cons.inj (List.append_cancel_left spelled)).2).2
          -- The digits of the mode end before the first space.
          have noSpace (bits : Nat) : ' ' ∉ Text.paddedDigits 2 3 bits :=
            Text.not_mem_paddedDigits (by decide) (by decide) (by decide) 3 bits
          have split := congrArg (List.splitOn ' ') parts
          rw [List.splitOn_append_cons_self_of_not_mem (noSpace bits),
            List.splitOn_append_cons_self_of_not_mem (noSpace otherBits)] at split
          have mode := (List.cons.inj split).1
          rw [mode] at parts
          have place := List.append_cancel_left
            (List.cons.inj (List.append_cancel_left parts)).2
          have index := congrArg (Text.number 10) place
          rw [Text.number_toDigits (by decide) (by decide),
            Text.number_toDigits (by decide) (by decide)] at index
          rw [index, Text.paddedDigits_injective (by decide) (by decide) mode]

end DecodeError

/-- The text of an instruction begins with a small letter. -/
theorem Instruction.text_begins (instruction : Instruction) :
    ∃ first rest, instruction.text.toList = first :: rest ∧ first.isLower := by
  have mnemonic : ∃ first rest,
      instruction.opcode.mnemonic.toList = first :: rest ∧ first.isLower := by
    cases instruction.opcode <;> exact ⟨_, _, rfl, by decide⟩
  obtain ⟨first, rest, begins, small⟩ := mnemonic
  unfold text
  split
  · exact ⟨first, rest, begins, small⟩
  · rw [String.toList_append, String.toList_append, begins]
    exact ⟨first, _, rfl, small⟩

namespace Container

section Explanations

/-- What is shown of a row that is refused. -/
def refusedText (reason : DecodeError) : String :=
  "<invalid: " ++ reason.message ++ ">"

theorem refusedText_begins (reason : DecodeError) :
    ∃ rest, (refusedText reason).toList = '<' :: 'i' :: rest := by
  rw [refusedText, String.toList_append, String.toList_append]
  exact ⟨_, rfl⟩

theorem refusedText_injective {first second : DecodeError}
    (same : refusedText first = refusedText second) : first = second := by
  have spelled := congrArg String.toList same
  simp only [refusedText, String.toList_append] at spelled
  have message := List.append_cancel_left (List.append_cancel_right spelled)
  exact DecodeError.message_injective (String.toList_inj.mp message)

theorem refusedText_ne_truncated (reason : DecodeError) : refusedText reason ≠ "<truncated>" := by
  intro same
  obtain ⟨rest, begins⟩ := refusedText_begins reason
  rw [same] at begins
  cases begins

/-- No instruction has a text that begins with a bracket. -/
theorem text_ne_of_mark {instruction : Instruction} {text : String} {rest : List Char}
    (marked : text.toList = '<' :: rest) : instruction.text ≠ text := by
  intro same
  obtain ⟨first, others, begins, small⟩ := instruction.text_begins
  rw [same, marked] at begins
  rw [← (List.cons.inj begins).1] at small
  contradiction

theorem text_ne_truncated (instruction : Instruction) : instruction.text ≠ "<truncated>" :=
  text_ne_of_mark rfl

theorem text_ne_refused (instruction : Instruction) (reason : DecodeError) :
    instruction.text ≠ refusedText reason :=
  (refusedText_begins reason).elim fun _ begins => text_ne_of_mark begins

variable {row : List UInt8}

theorem full_iff : row.length = 8 ↔ (Instruction.decode? row).isSome := by
  rw [← Option.ne_none_iff_isSome, ne_eq, Instruction.decode?_eq_none_iff, not_not]
  rfl

theorem rowText_instruction {instruction : Instruction}
    (decoded : Instruction.decode? row = some (.ok instruction)) :
    rowText row = instruction.text := by
  rw [rowText, decoded]

theorem rowText_eq_text_iff : (∃ instruction : Instruction, rowText row = instruction.text) ↔
    ∃ instruction, Instruction.decode? row = some (.ok instruction) := by
  unfold rowText
  split
  case h_1 instruction found => exact iff_of_true ⟨instruction, rfl⟩ ⟨instruction, found⟩
  case h_2 reason found =>
    rw [found]
    apply iff_of_false (fun ⟨other, same⟩ => text_ne_refused other reason same.symm)
    rintro ⟨_, ⟨⟩⟩
  case h_3 found =>
    rw [found]
    apply iff_of_false (fun ⟨other, same⟩ => text_ne_truncated other same.symm)
    rintro ⟨_, ⟨⟩⟩

theorem rowText_eq_refused_iff (reason : DecodeError) :
    rowText row = refusedText reason ↔ Instruction.decode? row = some (.error reason) := by
  unfold rowText
  split
  case h_1 instruction found =>
    rw [found]
    exact iff_of_false (text_ne_refused instruction reason) nofun
  case h_2 other found =>
    rw [found, Option.some.injEq, Except.error.injEq]
    exact ⟨refusedText_injective, congrArg refusedText⟩
  case h_3 found =>
    rw [found]
    exact iff_of_false (refusedText_ne_truncated reason).symm nofun

theorem rowText_eq_truncated_iff :
    rowText row = "<truncated>" ↔ Instruction.decode? row = none := by
  unfold rowText
  split
  case h_1 instruction found =>
    rw [found]
    exact iff_of_false (text_ne_truncated instruction) nofun
  case h_2 reason found =>
    rw [found]
    exact iff_of_false (refusedText_ne_truncated reason) nofun
  case h_3 found => exact iff_of_true rfl found

/-- A text says what a row of code is: the instruction that a full row decodes to, why a full row is
refused, or that the row is not full. -/
structure Explains (row : List UInt8) (text : String) : Prop where
  full : row.length = 8 ↔ (Instruction.decode? row).isSome
  instruction : ∀ instruction,
    Instruction.decode? row = some (.ok instruction) → text = instruction.text
  disassembled : (∃ instruction : Instruction, text = instruction.text) ↔
    ∃ instruction, Instruction.decode? row = some (.ok instruction)
  refused : ∀ reason, text = refusedText reason ↔ Instruction.decode? row = some (.error reason)
  truncated : text = "<truncated>" ↔ row.length < 8

theorem rowText_explains (few : row.length ≤ 8) : Explains row (rowText row) where
  full := full_iff
  instruction _ decoded := rowText_instruction decoded
  disassembled := rowText_eq_text_iff
  refused := rowText_eq_refused_iff
  truncated := by
    rw [rowText_eq_truncated_iff, ← Option.not_isSome_iff_eq_none, ← full_iff]
    omega

end Explanations

section Columns

/-- The bytes that a column of hexadecimal pairs spells; blanks between and behind them are
skipped. -/
def ofHexColumn (column : List Char) : List UInt8 :=
  ((column.splitOn ' ').filter (· ≠ [])).map fun digits => UInt8.ofNat (Text.number 16 digits)

theorem hexColumn_toList (bytes : List UInt8) :
    (hexColumn bytes).toList = [' '].intercalate (bytes.map Text.byteDigits) := by
  have words : bytes.map (String.toList ∘ fun byte => String.ofList (Text.byteDigits byte)) =
      bytes.map Text.byteDigits :=
    List.map_congr_left fun byte _ => String.toList_ofList
  rw [hexColumn, String.toList_intercalate, List.map_map, words]
  rfl

theorem byteDigits_word (byte : UInt8) :
    Text.byteDigits byte ≠ [] ∧ ' ' ∉ Text.byteDigits byte := by
  constructor
  · exact List.ne_nil_of_length_pos (by rw [Text.byteDigits_length]; decide)
  · exact Text.not_mem_paddedDigits (by decide) (by decide) (by decide) 2 byte.toNat

/-- The bytes of a row are read back from its column. -/
theorem ofHexColumn_hexColumn (bytes : List UInt8) :
    ofHexColumn (hexColumn bytes).toList = bytes := by
  by_cases none : bytes = []
  · rw [none]
    rfl
  · have words : ∀ word ∈ bytes.map Text.byteDigits, word ≠ [] ∧ ' ' ∉ word :=
      List.forall_mem_map.mpr fun byte _ => byteDigits_word byte
    have nonempty : bytes.map Text.byteDigits ≠ [] := mt List.map_eq_nil_iff.mp none
    have byte (byte : UInt8) : UInt8.ofNat (Text.number 16 (Text.byteDigits byte)) = byte := by
      rw [Text.byteDigits, Text.number_paddedDigits (by decide) (by decide), UInt8.ofNat_toNat]
    rw [ofHexColumn, hexColumn_toList,
      List.splitOn_intercalate ' ' (fun word member => (words word member).2) nonempty,
      List.filter_eq_self.mpr fun word member => decide_eq_true (words word member).1,
      List.map_map]
    exact (List.map_congr_left fun next _ => byte next).trans (List.map_id' bytes)

theorem ofHexColumn_blanks (column : List Char) (blanks : Nat) :
    ofHexColumn (column ++ List.replicate blanks ' ') = ofHexColumn column := by
  cases blanks with
  | zero => rw [List.replicate_zero, List.append_nil]
  | succ blanks =>
      have behind : ((List.replicate blanks ' ').splitOn ' ').filter (· ≠ []) = [] := by
        induction blanks with
        | zero => rfl
        | succ blanks inductionHypothesis =>
            rw [List.replicate_succ, ← List.nil_append (_ :: _), List.splitOn_append_cons_self,
              List.filter_append, inductionHypothesis]
            rfl
      rw [ofHexColumn, ofHexColumn, List.replicate_succ, List.splitOn_append_cons_self,
        List.filter_append, behind, List.append_nil]

end Columns

/-- A line says where a row of code stands, what its bytes are and what they mean. -/
structure ListsRow (code : List UInt8) (index : Nat) (line : ListingLine) : Prop where
  address : line.address = 8 * index
  word : line.address < 2 ^ 32
  bytes : line.bytes = hexColumn (rowAt code index)
  text : Explains (rowAt code index) line.text

/-- The lines are the rows of the code in order, and all bytes are read back from them. -/
structure Lists (code : List UInt8) (lines : List ListingLine) : Prop where
  count : lines.length = (code.length + 7) / 8
  line : ∀ index line, lines[index]? = some line → ListsRow code index line
  lossless : lines.flatMap (fun line => ofHexColumn line.bytes.toList) = code

/-- The instructions are the full rows of the listing, with the same offsets, and each has the
decoding of its row. -/
structure DecodesRows (container : Container) : Prop where
  count : container.instructions.length = container.code.length / 8
  full : ∀ index,
    index < container.instructions.length ↔ (rowAt container.code index).length = 8
  entry : ∀ index offset decoded, container.instructions[index]? = some (offset, decoded) →
    Instruction.decode? (rowAt container.code index) = some decoded ∧
      ∃ line, container.listing[index]? = some line ∧ line.address = offset

/-- The line of the row with a number. -/
def lineAt (code : List UInt8) (index : Nat) : ListingLine where
  address := 8 * index
  bytes := hexColumn (rowAt code index)
  text := rowText (rowAt code index)

theorem listing_eq (container : Container) :
    container.listing = (List.range (rowCount container.code)).map (lineAt container.code) := by
  rw [listing, offsetRows_eq, List.map_map]
  apply List.map_congr_left
  intro index _
  exact congrArg (ListingLine.mk · _ _) (Nat.zero_add _)

theorem listing_getElem? (container : Container) {index : Nat}
    (inside : index < rowCount container.code) :
    container.listing[index]? = some (lineAt container.code index) := by
  rw [listing_eq, List.getElem?_map, List.getElem?_range inside, Option.map_some]

theorem listing_length (container : Container) :
    container.listing.length = rowCount container.code := by
  rw [listing_eq, List.length_map, List.length_range]

theorem lineAt_listsRow {code : List UInt8} {index : Nat} (inside : 8 * index < 2 ^ 32) :
    ListsRow code index (lineAt code index) where
  address := rfl
  word := inside
  bytes := rfl
  text := rowText_explains (rowAt_length_le code index)

theorem listing_lists (container : Container) (short : container.code.length < 2 ^ 31) :
    Lists container.code container.listing where
  count := container.listing_length
  line index line found := by
    have inside := (List.getElem?_eq_some_iff.mp found).1
    rw [listing_length] at inside
    rw [listing_getElem? container inside, Option.some.injEq] at found
    have within := lt_length_of_lt_rowCount inside
    rw [← found]
    exact lineAt_listsRow (by omega)
  lossless := by
    rw [listing_eq, List.flatMap_map]
    simp only [lineAt, ofHexColumn_hexColumn]
    exact rows_flatten container.code

theorem instructions_length (container : Container) :
    container.instructions.length = container.code.length / 8 := by
  have length := congrArg List.length container.instructions_eq
  rw [List.length_map, List.length_map, List.length_range] at length
  exact length

theorem instructions_decodeRows (container : Container) : DecodesRows container where
  count := container.instructions_length
  full index := by
    rw [full_iff, decode?_rowAt, instructions_length]
  entry index offset decoded found := by
    have inside := (List.getElem?_eq_some_iff.mp found).1
    rw [instructions_length] at inside
    have within : index < rowCount container.code := by
      rw [rowCount]
      omega
    have entry := congrArg (·[index]?) container.instructions_eq
    simp only [List.getElem?_map, found, Option.map_some, List.getElem?_range inside,
      instructionCount, Instruction.byteSize] at entry
    obtain ⟨rfl, decoding⟩ := Prod.mk.inj (Option.some.inj entry)
    exact ⟨decoding.symm, _, container.listing_getElem? within, rfl⟩

end Container

end RegisterMachine
