/-
This file reads a dump back. A dump is a sequence of lines, the rows of a section stand under its
title up to the next empty line, and their columns give the section back.
-/

import RegisterMachine.Proofs.Container.Listing

namespace RegisterMachine.Container

section Lines

/-- Each line is ended by a newline. -/
def unlines (lines : List (List Char)) : List Char :=
  lines.flatMap (· ++ ['\n'])

/-- The lines of a text. Behind the last newline stands one more, which is empty in a text that
ends its last line. -/
def textLines (text : String) : List (List Char) :=
  text.toList.splitOn '\n'

theorem unlines_append (first second : List (List Char)) :
    unlines (first ++ second) = unlines first ++ unlines second :=
  List.flatMap_append

theorem unlines_nil : unlines [] = [] :=
  rfl

theorem unlines_cons (line : List Char) (lines : List (List Char)) :
    unlines (line :: lines) = line ++ '\n' :: unlines lines := by
  rw [unlines, List.flatMap_cons, List.append_assoc]
  rfl

theorem textLines_eq {text : String} {lines : List (List Char)}
    (written : text.toList = unlines lines) (single : ∀ line ∈ lines, '\n' ∉ line) :
    textLines text = lines ++ [[]] := by
  rw [textLines, written]
  clear written
  induction lines with
  | nil => rfl
  | cons line lines inductionHypothesis =>
      obtain ⟨alone, others⟩ := List.forall_mem_cons.mp single
      rw [unlines_cons, List.splitOn_append_cons_self_of_not_mem alone,
        inductionHypothesis others, List.cons_append]

end Lines

section Titles

/-- The line that stands over the rows of a section. -/
def title (segment : Segment) : List Char :=
  '[' :: (segment.name.toList ++ [']'])

theorem title_injective {first second : Segment} (same : title first = title second) :
    first = second := by
  have names := List.append_cancel_right (List.cons.inj same).2
  revert names
  cases first <;> cases second <;> decide

theorem title_ne_nil (segment : Segment) : title segment ≠ [] :=
  List.cons_ne_nil _ _

/-- The lines under a title up to the next empty line, or nothing if the title is missing. -/
def rowsUnder? (title : List Char) : List (List Char) → Option (List (List Char))
  | [] => none
  | line :: behind =>
      if line = title then some (behind.takeWhile (· ≠ [])) else rowsUnder? title behind

theorem rowsUnder?_append {title : List Char} {front : List (List Char)}
    (other : title ∉ front) (behind : List (List Char)) :
    rowsUnder? title (front ++ behind) = rowsUnder? title behind := by
  induction front with
  | nil => rfl
  | cons line front inductionHypothesis =>
      obtain ⟨different, others⟩ := List.ne_and_not_mem_of_not_mem_cons other
      rw [List.cons_append, rowsUnder?, if_neg (Ne.symm different), inductionHypothesis others]

end Titles

section Rows

/-- The columns of a row. -/
def rowLine (address : Nat) (row : List UInt8) (explanation : String) : List Char :=
  (Text.address address).toList ++
    ' ' :: ' ' :: ((padRight hexColumnWidth (hexColumn row)).toList ++
      ' ' :: ' ' :: explanation.toList)

/-- The address in front of a row. -/
def rowAddress (line : List Char) : Nat :=
  Text.number 16 ((line.takeWhile (· ≠ ' ')).drop 2)

/-- The bytes in the second column of a row. -/
def rowBytes (line : List Char) : List UInt8 :=
  ofHexColumn (((line.dropWhile (· ≠ ' ')).drop 2).take hexColumnWidth)

theorem columns_toList (address : Nat) (row : List UInt8) (explanation : String) :
    (columns address (hexColumn row) explanation).toList =
      rowLine address row explanation ++ ['\n'] := by
  simp [columns, rowLine]

theorem newline_not_mem_hexadecimal (width value : Nat) :
    '\n' ∉ (Text.hexadecimal width value).toList := by
  rw [Text.hexadecimal_toList, List.mem_cons, List.mem_cons, not_or, not_or]
  exact ⟨by decide, by decide,
    Text.not_mem_paddedDigits (by decide) (by decide) (by decide) width value⟩

theorem newline_not_mem_address (address : Nat) : '\n' ∉ (Text.address address).toList := by
  rw [Text.address]
  exact newline_not_mem_hexadecimal 6 address

variable (address : Nat) (row : List UInt8) (explanation : String)

theorem address_word : ∀ character ∈ (Text.address address).toList,
    decide (character ≠ ' ') := by
  rw [Text.address, Text.hexadecimal_toList]
  have digits : ' ' ∉ Text.paddedDigits 16 6 address :=
    Text.not_mem_paddedDigits (by decide) (by decide) (by decide) 6 address
  refine List.forall_mem_cons.mpr ⟨by decide, List.forall_mem_cons.mpr ⟨by decide, ?_⟩⟩
  intro character member
  exact decide_eq_true fun same => digits (same ▸ member)

theorem rowAddress_rowLine : rowAddress (rowLine address row explanation) = address := by
  rw [rowAddress, rowLine, List.takeWhile_append_of_pos (address_word address),
    List.takeWhile_cons_of_neg (by decide), List.append_nil, Text.address,
    Text.hexadecimal_toList, List.drop_succ_cons, List.drop_succ_cons, List.drop_zero,
    Text.number_paddedDigits (by decide) (by decide)]

theorem hexColumn_cons (byte next : UInt8) (rest : List UInt8) :
    (hexColumn (byte :: next :: rest)).toList =
      Text.byteDigits byte ++ ' ' :: (hexColumn (next :: rest)).toList := by
  rw [hexColumn_toList, hexColumn_toList, List.map_cons, List.map_cons,
    List.intercalate_cons_cons, List.append_assoc]
  rfl

theorem hexColumn_single (byte : UInt8) : (hexColumn [byte]).toList = Text.byteDigits byte := by
  rw [hexColumn_toList, List.map_singleton, List.intercalate_singleton]

theorem hexColumn_length (bytes : List UInt8) :
    (hexColumn bytes).toList.length = 3 * bytes.length - 1 := by
  match bytes with
  | [] => rfl
  | [byte] => rw [hexColumn_single, Text.byteDigits_length]; rfl
  | byte :: next :: rest =>
      have behind := hexColumn_length (next :: rest)
      rw [hexColumn_cons, List.length_append, List.length_cons, Text.byteDigits_length, behind]
      simp only [List.length_cons]
      omega

theorem newline_not_mem_hexColumn (bytes : List UInt8) : '\n' ∉ (hexColumn bytes).toList := by
  have digits (byte : UInt8) : '\n' ∉ Text.byteDigits byte :=
    Text.not_mem_paddedDigits (by decide) (by decide) (by decide) 2 byte.toNat
  match bytes with
  | [] => exact List.not_mem_nil
  | [byte] =>
      rw [hexColumn_single]
      exact digits byte
  | byte :: next :: rest =>
      rw [hexColumn_cons, List.mem_append, List.mem_cons, not_or, not_or]
      exact ⟨digits byte, by decide, newline_not_mem_hexColumn (next :: rest)⟩

theorem padRight_toList (width : Nat) (text : String) :
    (padRight width text).toList =
      text.toList ++ List.replicate (width - text.toList.length) ' ' := by
  rw [padRight, String.toList_append, String.toList_ofList, String.length_toList]

theorem rowBytes_rowLine (few : row.length ≤ 8) :
    rowBytes (rowLine address row explanation) = row := by
  have width : (padRight hexColumnWidth (hexColumn row)).toList.length = hexColumnWidth := by
    rw [padRight_toList, List.length_append, List.length_replicate, hexColumn_length,
      hexColumnWidth, Instruction.byteSize]
    omega
  rw [rowBytes, rowLine, List.dropWhile_append_of_pos (address_word address),
    List.dropWhile_cons_of_neg (by decide), List.drop_succ_cons, List.drop_succ_cons,
    List.drop_zero, List.take_left' width, padRight_toList, ofHexColumn_blanks,
    ofHexColumn_hexColumn]

theorem newline_not_mem_rowLine (single : '\n' ∉ explanation.toList) :
    '\n' ∉ rowLine address row explanation := by
  have blanks (count : Nat) : '\n' ∉ List.replicate count ' ' := fun member =>
    absurd (List.eq_of_mem_replicate member) (by decide)
  simp only [rowLine, padRight_toList, List.mem_append, List.mem_cons, not_or]
  exact ⟨newline_not_mem_address address, by decide, by decide,
    ⟨newline_not_mem_hexColumn row, blanks _⟩, by decide, by decide, single⟩

theorem rowLine_begins : ∃ rest, rowLine address row explanation = '0' :: rest := by
  rw [rowLine, Text.address, Text.hexadecimal_toList]
  exact ⟨_, rfl⟩

end Rows

section Explanations

theorem newline_not_mem_text {row : List UInt8} {instruction : Instruction}
    (decoded : Instruction.decode? row = some (.ok instruction)) :
    '\n' ∉ instruction.text.toList := by
  have mnemonic : '\n' ∉ instruction.opcode.mnemonic.toList := by
    cases instruction.opcode <;> decide +kernel
  have operand (operand : Operand) : '\n' ∉ operand.text.toList := fun member =>
    absurd (operand.isTextCharacter_of_mem '\n' member) (by decide)
  by_cases first : instruction.dest = .absent
  · rw [Instruction.text_nullary first (Instruction.decode?_gapless decoded first)]
    exact mnemonic
  · by_cases second : instruction.src = .absent
    · simp only [Instruction.text_unary first second, List.mem_append, List.mem_cons, not_or]
      exact ⟨mnemonic, by decide, operand instruction.dest⟩
    · simp only [Instruction.text_binary first second, List.mem_append, List.mem_cons, not_or]
      exact ⟨mnemonic, by decide, operand instruction.dest, by decide, by decide,
        operand instruction.src⟩

theorem newline_not_mem_message (reason : DecodeError) : '\n' ∉ reason.message.toList := by
  cases reason with
  | opcodeNotFound byte =>
      simp only [DecodeError.message_opcodeNotFound, List.mem_append, List.mem_cons, not_or]
      exact ⟨by decide, by decide, by decide,
        Text.not_mem_paddedDigits (by decide) (by decide) (by decide) 2 byte.toNat⟩
  | invalidAddressingMode operandIndex bits =>
      simp only [DecodeError.message_invalidAddressingMode, List.mem_append, List.mem_cons, not_or]
      exact ⟨by decide, by decide, by decide,
        Text.not_mem_paddedDigits (by decide) (by decide) (by decide) 3 bits, by decide,
        by decide, Text.not_mem_toDigits (by decide) (by decide) (by decide) operandIndex⟩

theorem newline_not_mem_rowText (row : List UInt8) : '\n' ∉ (rowText row).toList := by
  unfold rowText
  split
  case h_1 instruction decoded => exact newline_not_mem_text decoded
  case h_2 reason _ =>
    simp only [String.toList_append, List.mem_append, not_or]
    exact ⟨⟨by decide, newline_not_mem_message reason⟩, by decide⟩
  case h_3 => decide

theorem newline_not_mem_printableColumn (row : List UInt8) :
    '\n' ∉ (printableColumn row).toList := by
  have visible : ∀ code ≤ 0x7E, 0x20 ≤ code → Char.ofNat code ≠ '\n' := by decide
  rw [printableColumn, String.toList_ofList]
  intro member
  obtain ⟨byte, _, same⟩ := List.mem_map.mp member
  split at same
  case isTrue inside => exact visible byte.toNat inside.2 inside.1 same
  case isFalse => exact absurd same (by decide)

end Explanations

section Parts

/-- What is shown of a section: where it is placed, its bytes and how they are explained. -/
structure Part where
  segment : Segment
  bytes : List UInt8
  explain : List UInt8 → String

namespace Part

def row (part : Part) (index : Nat) : List Char :=
  rowLine (part.segment.base.toNat + 8 * index) (rowAt part.bytes index)
    (part.explain (rowAt part.bytes index))

def rows (part : Part) : List (List Char) :=
  (List.range (rowCount part.bytes)).map part.row

/-- A section without bytes is left out. -/
def lines (part : Part) : List (List Char) :=
  if part.bytes = [] then [] else [] :: title part.segment :: part.rows

theorem rows_length (part : Part) : part.rows.length = rowCount part.bytes := by
  rw [rows, List.length_map, List.length_range]

theorem mem_rows {part : Part} {row : List Char} (member : row ∈ part.rows) :
    ∃ address bytes, row = rowLine address bytes (part.explain bytes) := by
  obtain ⟨index, _, rfl⟩ := List.mem_map.mp member
  exact ⟨_, _, rfl⟩

theorem rows_begin {part : Part} {row : List Char} (member : row ∈ part.rows) :
    ∃ rest, row = '0' :: rest := by
  obtain ⟨address, bytes, rfl⟩ := mem_rows member
  exact rowLine_begins address bytes _

theorem title_not_mem_rows (part : Part) (segment : Segment) : title segment ∉ part.rows := by
  intro member
  obtain ⟨rest, begins⟩ := rows_begin member
  cases begins

/-- Behind the rows of a section stands an empty line. -/
theorem takeWhile_lines (parts : List Part) :
    (parts.flatMap lines ++ [[]]).takeWhile (· ≠ []) = [] := by
  induction parts with
  | nil => rfl
  | cons part parts inductionHypothesis =>
      rw [List.flatMap_cons, List.append_assoc, lines]
      split
      · exact inductionHypothesis
      · rfl

/-- The rows of a section stand under its title. -/
theorem rowsUnder?_lines (parts : List Part) (segment : Segment) :
    rowsUnder? (title segment) (parts.flatMap lines ++ [[]]) =
      (parts.find? fun part => part.segment = segment ∧ part.bytes ≠ []).map rows := by
  induction parts with
  | nil => rfl
  | cons part parts inductionHypothesis =>
      rw [List.flatMap_cons, List.append_assoc, lines]
      by_cases none : part.bytes = []
      · rw [if_pos none, List.nil_append, inductionHypothesis,
          List.find?_cons_of_neg (by simp [none])]
      · rw [if_neg none, List.cons_append, List.cons_append, rowsUnder?,
          if_neg (title_ne_nil segment).symm, rowsUnder?]
        by_cases same : part.segment = segment
        -- The rows end at the empty line in front of the next title.
        · have shown : ∀ row ∈ part.rows, decide (row ≠ []) := by
            intro row member
            obtain ⟨rest, rfl⟩ := rows_begin member
            exact decide_eq_true (List.cons_ne_nil _ _)
          rw [if_pos (congrArg title same), List.find?_cons_of_pos (by simp [same, none]),
            List.takeWhile_append_of_pos shown, takeWhile_lines, List.append_nil, Option.map_some]
        · rw [if_neg (mt title_injective same), List.find?_cons_of_neg (by simp [same]),
            rowsUnder?_append (part.title_not_mem_rows segment), inductionHypothesis]

theorem newline_not_mem_title (segment : Segment) : '\n' ∉ title segment := by
  cases segment <;> decide

theorem newline_not_mem_lines {part : Part}
    (single : ∀ row, '\n' ∉ (part.explain row).toList) : ∀ line ∈ part.lines, '\n' ∉ line := by
  unfold lines
  split
  · nofun
  · refine List.forall_mem_cons.mpr ⟨List.not_mem_nil, List.forall_mem_cons.mpr ⟨?_, ?_⟩⟩
    · exact newline_not_mem_title part.segment
    · intro row member
      obtain ⟨address, bytes, rfl⟩ := mem_rows member
      exact newline_not_mem_rowLine address bytes _ (single bytes)

/-- A section is written as its lines. -/
theorem written (part : Part) (write : Nat → String)
    (same : ∀ index, (write index).toList = part.row index ++ ['\n']) :
    ("\n[" ++ part.segment.name ++ "]\n" ++
        String.join ((List.range (rowCount part.bytes)).map write)).toList =
      unlines ([] :: title part.segment :: part.rows) := by
  have join : (String.join ((List.range (rowCount part.bytes)).map write)).toList =
      unlines part.rows := by
    rw [String.toList_join, List.flatMap_map, unlines, rows, List.flatMap_map]
    simp only [same]
  simp [join, unlines_cons, title]

end Part

/-- The sections in the order of a dump. -/
def parts (container : Container) : List Part := [
  ⟨.code, container.code, rowText⟩,
  ⟨.rodata, container.rodata, printableColumn⟩,
  ⟨.data, container.data, printableColumn⟩]

theorem rowMap_eq_nil {bytes : List UInt8} {Line : Type} {line : Nat → Line} :
    (List.range (rowCount bytes)).map line = [] ↔ bytes = [] := by
  rw [List.map_eq_nil_iff, List.range_eq_nil, rowCount_eq_zero]

theorem dumpBytes_toList (segment : Segment) (bytes : List UInt8) :
    (dumpBytes segment bytes).toList =
      unlines (Part.lines ⟨segment, bytes, printableColumn⟩) := by
  unfold dumpBytes Part.lines
  rw [offsetRows_eq]
  split
  case h_1 none =>
    rw [if_pos (rowMap_eq_nil.mp none)]
    rfl
  case h_2 some =>
    rw [if_neg (mt rowMap_eq_nil.mpr some), List.map_map]
    exact Part.written ⟨segment, bytes, printableColumn⟩ _ fun index => columns_toList _ _ _

theorem dumpCode_toList (container : Container) :
    container.dumpCode.toList = unlines (Part.lines ⟨.code, container.code, rowText⟩) := by
  unfold dumpCode Part.lines
  rw [listing_eq]
  split
  case h_1 none =>
    rw [if_pos (rowMap_eq_nil.mp none)]
    rfl
  case h_2 some =>
    rw [if_neg (mt rowMap_eq_nil.mpr some), List.map_map]
    apply Part.written ⟨.code, container.code, rowText⟩
    intro index
    rw [Part.row, show Segment.code.base.toNat = 0 from rfl, Nat.zero_add]
    exact columns_toList _ _ _

end Parts

section Heading

/-- What is shown of a header: labels and their values. -/
def headerEntries (header : Header) : List (String × String) :=
  let magic :=
    if header.hasExpectedMagic then "BTVM"
    else Text.hexadecimal 8 header.magic.toNat ++ " (unexpected)"
  [("magic    ", magic),
    ("version  ", toString header.version.toNat),
    ("entry    ", Text.address header.entryPoint.toNat),
    ("code     ", toString header.codeLength.toNat ++ " bytes"),
    ("rodata   ", toString header.rodataLength.toNat ++ " bytes"),
    ("data     ", toString header.dataLength.toNat ++ " bytes")]

def headerLines (header : Header) : List (List Char) :=
  "[header]".toList ::
    (headerEntries header).map fun entry => entry.1.toList ++ entry.2.toList

theorem dumpHeader_toList (header : Header) :
    (dumpHeader header).toList = unlines (headerLines header) := by
  -- Newlines inside literals are split off, so that only lines and newlines remain.
  have title : "[header]\n".toList = "[header]".toList ++ ['\n'] := rfl
  have count : " bytes\n".toList = " bytes".toList ++ ['\n'] := rfl
  have newline : "\n".toList = ['\n'] := rfl
  unfold dumpHeader headerLines headerEntries
  generalize (if header.hasExpectedMagic then _ else _ : String) = magic
  simp only [List.map_cons, List.map_nil, unlines_cons, unlines_nil, String.toList_append,
    List.append_assoc, List.cons_append, List.nil_append, title, count, newline, toString]

theorem headerEntries_label (header : Header) : ∀ entry ∈ headerEntries header,
    '\n' ∉ entry.1.toList ∧ '[' ∉ entry.1.toList ∧ entry.1.toList ≠ [] := by
  have labels : ∀ label ∈ (headerEntries header).map Prod.fst,
      '\n' ∉ label.toList ∧ '[' ∉ label.toList ∧ label.toList ≠ [] := by
    change ∀ label ∈ ["magic    ", "version  ", "entry    ", "code     ", "rodata   ",
      "data     "], _
    decide +kernel
  exact fun entry member => labels entry.1 (List.mem_map_of_mem member)

theorem newline_not_mem_decimal (value : Nat) : '\n' ∉ (toString value).toList := by
  rw [Nat.toString_eq_repr, Nat.toList_repr]
  exact Text.not_mem_toDigits (by decide) (by decide) (by decide) value

theorem headerEntries_value (header : Header) :
    ∀ entry ∈ headerEntries header, '\n' ∉ entry.2.toList := by
  have bytes (count : Nat) : '\n' ∉ (toString count ++ " bytes").toList := by
    rw [String.toList_append, List.mem_append, not_or]
    exact ⟨newline_not_mem_decimal count, by decide⟩
  have magic : '\n' ∉ (if header.hasExpectedMagic then "BTVM"
      else Text.hexadecimal 8 header.magic.toNat ++ " (unexpected)").toList := by
    split
    · decide
    · rw [String.toList_append, List.mem_append, not_or]
      exact ⟨newline_not_mem_hexadecimal 8 header.magic.toNat, by decide⟩
  simp only [headerEntries, List.forall_mem_cons]
  exact ⟨magic, newline_not_mem_decimal _, newline_not_mem_address _, bytes _, bytes _, bytes _,
    nofun⟩

theorem newline_not_mem_headerLines (header : Header) :
    ∀ line ∈ headerLines header, '\n' ∉ line := by
  refine List.forall_mem_cons.mpr ⟨by decide, List.forall_mem_map.mpr fun entry member => ?_⟩
  rw [List.mem_append, not_or]
  exact ⟨(headerEntries_label header entry member).1, headerEntries_value header entry member⟩

theorem title_not_mem_headerLines (segment : Segment) (header : Header) :
    title segment ∉ headerLines header := by
  refine List.not_mem_cons_of_ne_of_not_mem (by cases segment <;> decide) fun member => ?_
  obtain ⟨entry, member, same⟩ := List.mem_map.mp member
  obtain ⟨_, other, nonempty⟩ := headerEntries_label header entry member
  obtain ⟨first, rest, label⟩ := List.exists_cons_of_ne_nil nonempty
  rw [label, List.cons_append] at same
  apply other
  rw [label, (List.cons.inj same).1]
  exact List.mem_cons_self

end Heading

/-- The header and the sections are written as their lines. -/
theorem textLines_dump (container : Container) :
    textLines container.dump =
      headerLines container.header ++ (container.parts.flatMap Part.lines ++ [[]]) := by
  have parts : container.parts.flatMap Part.lines =
      Part.lines ⟨.code, container.code, rowText⟩ ++
        (Part.lines ⟨.rodata, container.rodata, printableColumn⟩ ++
          Part.lines ⟨.data, container.data, printableColumn⟩) := by
    simp [Container.parts]
  rw [← List.append_assoc, parts]
  apply textLines_eq
  · rw [dump, String.toList_append, String.toList_append, String.toList_append,
      dumpHeader_toList, dumpCode_toList, dumpBytes_toList, dumpBytes_toList]
    simp only [unlines_append, List.append_assoc]
  · simp only [List.forall_mem_append]
    exact ⟨newline_not_mem_headerLines container.header,
      Part.newline_not_mem_lines newline_not_mem_rowText,
      Part.newline_not_mem_lines newline_not_mem_printableColumn,
      Part.newline_not_mem_lines newline_not_mem_printableColumn⟩

/-- The rows that a dump shows of a segment. -/
def shownRows? (container : Container) (segment : Segment) : Option (List (List Char)) :=
  rowsUnder? (title segment) (textLines container.dump)

theorem shownRows?_eq (container : Container) (segment : Segment) :
    container.shownRows? segment =
      (container.parts.find? fun part => part.segment = segment ∧ part.bytes ≠ []).map
        Part.rows := by
  rw [shownRows?, textLines_dump, rowsUnder?_append (title_not_mem_headerLines segment _),
    Part.rowsUnder?_lines]

/-- A row of a dump says where it stands, what its bytes are and what they mean. -/
structure ShowsRow (part : Part) (index : Nat) (line : List Char) : Prop where
  columns : line = rowLine (part.segment.base.toNat + 8 * index) (rowAt part.bytes index)
    (part.explain (rowAt part.bytes index))
  word : part.segment.base.toNat + 8 * index < 2 ^ 32
  address : rowAddress line = part.segment.base.toNat + 8 * index
  bytes : rowBytes line = rowAt part.bytes index

/-- All bytes of a section are read back from its rows. -/
structure ShowsRows (part : Part) (rows : List (List Char)) : Prop where
  count : rows.length = (part.bytes.length + 7) / 8
  row : ∀ index line, rows[index]? = some line → ShowsRow part index line
  lossless : rows.flatMap rowBytes = part.bytes

/-- A dump shows the rows of a section that is not empty, and nothing of one that is. -/
structure Shows (container : Container) (part : Part) : Prop where
  present : (container.shownRows? part.segment).isSome ↔ part.bytes ≠ []
  rows : ∀ rows, container.shownRows? part.segment = some rows → ShowsRows part rows

namespace Part

theorem row_bytes (part : Part) (index : Nat) :
    rowBytes (part.row index) = rowAt part.bytes index :=
  rowBytes_rowLine _ _ _ (rowAt_length_le part.bytes index)

theorem row_shows {part : Part} (short : part.bytes.length < 2 ^ 31) {index : Nat}
    (inside : index < rowCount part.bytes) : ShowsRow part index (part.row index) where
  columns := rfl
  word := by
    have low : part.segment.base.toNat < 2 ^ 31 := by
      cases part.segment <;> decide
    have within := lt_length_of_lt_rowCount inside
    omega
  address := rowAddress_rowLine _ _ _
  bytes := part.row_bytes index

theorem rows_show {part : Part} (short : part.bytes.length < 2 ^ 31) :
    ShowsRows part part.rows where
  count := part.rows_length
  row index line found := by
    have inside := (List.getElem?_eq_some_iff.mp found).1
    rw [rows_length] at inside
    rw [rows, List.getElem?_map, List.getElem?_range inside, Option.map_some,
      Option.some.injEq] at found
    rw [← found]
    exact row_shows short inside
  lossless := by
    rw [rows, List.flatMap_map]
    simp only [row_bytes]
    exact rows_flatten part.bytes

end Part

theorem shownRows?_part {container : Container} {part : Part} (member : part ∈ container.parts) :
    container.shownRows? part.segment =
      if part.bytes = [] then none else some part.rows := by
  rw [shownRows?_eq]
  simp only [parts, List.mem_cons, List.not_mem_nil, or_false] at member
  obtain rfl | rfl | rfl := member <;> split <;> simp_all [parts]

theorem dump_shows {container : Container} {part : Part} (member : part ∈ container.parts)
    (short : part.bytes.length < 2 ^ 31) : Shows container part where
  present := by
    rw [shownRows?_part member]
    split <;> simp [*]
  rows rows shown := by
    rw [shownRows?_part member] at shown
    split at shown
    · contradiction
    · cases shown
      exact Part.rows_show short

/-- A listing and a dump lose no bytes. Each row of the code is listed with its place, its bytes and
what they mean, the full rows are the instructions, and a dump shows each section that is not empty
with its bytes. -/
theorem listing_dump_lossless (container : Container) (code : container.code.length < 2 ^ 31)
    (rodata : container.rodata.length < 2 ^ 31) (data : container.data.length < 2 ^ 31) :
    Lists container.code container.listing ∧ DecodesRows container ∧
      Shows container ⟨.code, container.code, rowText⟩ ∧
      Shows container ⟨.rodata, container.rodata, printableColumn⟩ ∧
      Shows container ⟨.data, container.data, printableColumn⟩ := by
  have shows : ∀ part ∈ container.parts, part.bytes.length < 2 ^ 31 → Shows container part :=
    fun _ member short => dump_shows member short
  simp only [parts, List.forall_mem_cons] at shows
  exact ⟨container.listing_lists code, container.instructions_decodeRows, shows.1 code,
    shows.2.1 rodata, shows.2.2.1 data⟩

/-- An instruction, a row that is refused and a row that is too short are listed, and a dump has a
block of the nine bytes of read-only data and none of the data. -/
theorem listing_dump_tail :
    let container : Container := {
      header := ⟨Header.expectedMagic, Header.supportedVersion, 19, 0, 9, 0⟩
      code := [0x02, 11, 8, 0xFC, 0xFF, 0xFF, 0xFF, 0x0C, 0xFF, 0, 0, 0, 0, 0, 0, 0, 1, 2, 3]
      rodata := [0x68, 0x65, 0x6C, 0x6C, 0x6F, 0, 0x0A, 0xFF, 0x80]
      data := [] }
    container.listing.length = 3 ∧ container.instructions.length = 2 ∧
      container.listing.flatMap (fun line => ofHexColumn line.bytes.toList) = container.code ∧
      (∃ rows, container.shownRows? .rodata = some rows ∧
        rows.flatMap rowBytes = container.rodata) ∧
      container.shownRows? .data = none := by
  intro container
  obtain ⟨lists, decodes, _, rodata, data⟩ :=
    listing_dump_lossless container (by decide) (by decide) (by decide)
  obtain ⟨rows, shown⟩ := Option.isSome_iff_exists.mp (rodata.present.mpr (by decide))
  refine ⟨lists.count.trans (by decide), decodes.count.trans (by decide), lists.lossless,
    ⟨rows, shown, ?_⟩, ?_⟩
  · exact (rodata.rows rows shown).lossless
  · exact Option.not_isSome_iff_eq_none.mp (mt data.present.mp (by decide))

end RegisterMachine.Container
