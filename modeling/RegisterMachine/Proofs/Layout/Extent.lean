/-
This file bounds what a source makes the assembler keep: texts, line numbers and the bytes of the
data sections. None takes more than the source does, but for the names of labels, which are kept
with their colons and without.
-/

import RegisterMachine.Proofs.Layout.Values
import RegisterMachine.Proofs.Source.Widths

namespace RegisterMachine

open Source
open Interner (Extends Sound)

/-- A mnemonic has two letters for each of its operands that can be a string. -/
theorem Opcode.two_mul_strings_le (opcode : Opcode) :
    2 * (opcode.slots.countP fun kind => kind.accepts .string) ≤ opcode.mnemonic.toList.length := by
  cases opcode <;> decide +kernel

theorem stringBytes_length_le (text : String) :
    (stringBytes text).length ≤ text.utf8ByteSize + 4 := by
  rw [stringBytes, List.length_rightpad, List.length_append, utf8_length, List.length_singleton]
  omega

namespace Source

/-- A string takes at most two bytes more than it does with its quotes. -/
theorem Operand.string_length_le (interner : Interner) (text : Symbol) :
    ((Operand.string text).bytes interner).length ≤ (Token.string text).width interner + 2 := by
  cases found : interner.tryResolve text with
  | none =>
      simp [Operand.bytes, valueBytes?, Interner.resolve, found]
  | some resolved =>
      have bytes : (Operand.string text).bytes interner = stringBytes resolved := by
        simp [Operand.bytes, valueBytes?, Interner.resolve, found]
      have known : interner.textOf text = resolved := by
        rw [Interner.textOf, found]
        rfl
      rw [bytes, Token.width, known]
      exact stringBytes_length_le resolved

/-- A value takes at most four bytes more than where it is written. -/
theorem Operand.length_le (interner : Interner) {token : Token} {operand : Operand}
    (stands : token.operand? = some operand) :
    (operand.bytes interner).length ≤ token.width interner + 4 := by
  cases token with
  | string text =>
      cases stands
      exact Nat.le_trans (string_length_le interner text) (Nat.add_le_add_left (by decide) _)
  | identifier | register | integer | char =>
      cases stands
      exact Nat.le_add_left _ _
  | directive | comma | endOfLine | endOfFile => cases stands

/-- The string operands of an instruction take two bytes more each than where they are written. -/
theorem OperandsWritten.literals_length_le {kinds : List OperandKind} {operands : List Operand}
    {tokens : List Token} (interner : Interner)
    (written : OperandsWritten kinds operands tokens) :
    ((operands.filterMap Operand.literal?).flatMap (Constant.bytes interner)).length ≤
      widths interner tokens + 2 * kinds.countP fun kind => kind.accepts .string := by
  induction written with
  | done => exact Nat.le_refl _
  | @more kind kinds operand operands comma tokens token _ stands accepted _
      inductionHypothesis =>
      rw [widths_append, widths_cons, List.countP_cons]
      cases operand with
      | string text =>
          have same : token = .string text := by
            cases token <;> cases stands
            rfl
          have short := Operand.string_length_le interner text
          have counted : kind.accepts .string := accepted
          rw [List.filterMap_cons_some (by rfl : Operand.literal? (.string text) = _),
            List.flatMap_cons, List.length_append, if_pos counted, same]
          change ((Operand.string text).bytes interner).length + _ ≤ _
          omega
      | register | integer | char | symbol | absent =>
          rw [List.filterMap_cons_none (by rfl)]
          omega

/-- The bytes that a line adds to the two data sections, if none of its strings has a copy. -/
def Line.stored (interner : Interner) (line : Line) : Nat :=
  (line.constants.flatMap (Constant.bytes interner)).length + (line.dataBytes interner).length

theorem Line.stored_directive (interner : Interner) (named : Directive) (operands : Operands) :
    (Line.directive named operands).stored interner ≤ (operands.second.bytes interner).length := by
  obtain ⟨first, second⟩ := operands
  cases named with
  | data => exact Nat.le_of_eq (Nat.zero_add _)
  | start | global | unknown => exact Nat.zero_le _
  | rodata =>
      cases first with
      | symbol name =>
          have whole : (Line.directive .rodata ⟨.symbol name, second⟩).stored interner =
              ((Constant.named name second).bytes interner ++ []).length := rfl
          rw [whole, List.append_nil]
          exact Nat.le_refl _
      | register | integer | char | string | absent => exact Nat.zero_le _

theorem Line.stored_instruction {interner : Interner} {content : Instruction}
    {operands : List Operand} (filled : content.operands.toList =
      operands ++ List.replicate (2 - content.opcode.arity) .absent) :
    (Line.instruction content).stored interner =
      ((operands.filterMap Operand.literal?).flatMap (Constant.bytes interner)).length := by
  have empty (count : Nat) :
      (List.replicate count Operand.absent).filterMap Operand.literal? = [] :=
    List.filterMap_replicate_of_none rfl
  rw [stored, constants, filled, List.filterMap_append, empty, List.append_nil]
  rfl

/-- What the parser keeps of an item fits the bytes that the item takes. The texts of its values are
those that are known in the end. -/
structure Item.Fits (interner : Interner) (line room : Nat) (item : Item) (after final : Interner) :
    Prop where
  arena : after.arenaSize ≤ interner.arenaSize + room
  count : after.size ≤ interner.size + room
  next : item.lineAfter line ≤ line + room
  stored : (((item.lines line).map NumberedLine.content).map (Line.stored final)).sum ≤ room

/-- A line with no new text fits if its values do. -/
theorem Item.Fits.of_line {interner final : Interner} {content : Line} {line room : Nat}
    (stored : content.stored final ≤ room) :
    (Item.line content).Fits interner line room interner final where
  arena := Nat.le_add_right _ _
  count := Nat.le_add_right _ _
  next := Nat.le_add_right _ _
  stored := stored

theorem Phrase.Reads.fits {interner final : Interner} {phrase : Phrase}
    {taken following : List Token} (reads : phrase.Reads interner taken following)
    (grown : Extends interner final) (line : Nat) :
    (phrase.item interner).1.Fits interner line (widths final taken) (phrase.item interner).2
      final := by
  cases reads with
  | lineEnd =>
      exact ⟨Nat.le_add_right _ _, Nat.le_add_right _ _, Nat.le_refl _, Nat.zero_le _⟩
  | strayRegister =>
      exact ⟨Nat.le_add_right _ _, Nat.le_add_right _ _, Nat.le_refl _, Nat.le_refl _⟩
  | @label name text _ spelled =>
      obtain ⟨arena, count⟩ := interner.intern_size text
      have width : widths final [.identifier name] = text.utf8ByteSize + 1 := by
        rw [widths_singleton, Token.width, (grown _ _ spelled).textOf, String.utf8ByteSize_append]
        rfl
      rw [width]
      exact ⟨Nat.le_trans arena (by omega), Nat.le_trans count (by omega), Nat.le_add_right _ _,
        Nat.zero_le _⟩
  | @instruction name text content operands tokens _ spelled mnemonic written filled =>
      have literals := written.literals_length_le final
      have letters := content.opcode.two_mul_strings_le
      have longer : content.opcode.mnemonic.toList.length ≤ text.utf8ByteSize := by
        rw [← mnemonic, Text.lowercase, String.toList_ofList, List.length_map,
          ← String.utf8Len_toList]
        exact length_le_utf8Len text.toList
      apply Item.Fits.of_line
      -- The letters of the mnemonic pay for the zero bytes behind the strings.
      rw [widths_cons, Token.width, (grown _ _ spelled).textOf, Line.stored_instruction filled]
      omega
  | bareDirective named | directive named =>
      exact .of_line (Nat.le_trans (Line.stored_directive final named _) (Nat.zero_le _))
  | @pairedDirective first second firstToken secondToken comma named _ _ separator standsSecond =>
      have short := Operand.length_le final standsSecond
      apply Item.Fits.of_line
      apply Nat.le_trans (Line.stored_directive final named ⟨first, second⟩)
      change (second.bytes final).length ≤ _
      rw [widths_cons, widths_cons, widths_append, widths_singleton, Token.width]
      omega

/-- What the parser keeps of some tokens fits the bytes that they take. -/
structure Outline.Fits (outline : Outline) (interner : Interner) (line room : Nat) : Prop where
  arena : outline.interner.arenaSize ≤ interner.arenaSize + room
  count : outline.interner.size ≤ interner.size + room
  numbers : ∀ found ∈ outline.lines, found.number ≤ line + room
  stored : ((outline.lines.map NumberedLine.content).map (Line.stored outline.interner)).sum ≤ room

theorem Outline.Fits.done (interner : Interner) (line room : Nat)
    (stop : Option (Abort ParseError)) :
    Outline.Fits ⟨[], interner, stop⟩ interner line room :=
  ⟨Nat.le_add_right _ _, Nat.le_add_right _ _, List.forall_mem_nil _, Nat.zero_le _⟩

theorem Outline.Fits.mono {outline : Outline} {interner : Interner} {line room more : Nat}
    (fits : outline.Fits interner line room) (larger : room ≤ more) :
    outline.Fits interner line more where
  arena := Nat.le_trans fits.arena (Nat.add_le_add_left larger _)
  count := Nat.le_trans fits.count (Nat.add_le_add_left larger _)
  numbers found member := Nat.le_trans (fits.numbers found member) (Nat.add_le_add_left larger _)
  stored := Nat.le_trans fits.stored larger

theorem Outline.Fits.behind {outline : Outline} {item : Item} {interner following : Interner}
    {line front back : Nat} (rest : outline.Fits following (item.lineAfter line) back)
    (first : item.Fits interner line front following outline.interner) :
    (outline.behind (item.lines line)).Fits interner line (front + back) where
  arena := by
    have total := Nat.le_trans rest.arena (Nat.add_le_add_right first.arena back)
    rw [Nat.add_assoc] at total
    exact total
  count := by
    have total := Nat.le_trans rest.count (Nat.add_le_add_right first.count back)
    rw [Nat.add_assoc] at total
    exact total
  numbers := by
    rw [Outline.behind, List.forall_mem_append]
    constructor
    · intro found member
      cases item with
      | line content =>
          rw [List.mem_singleton.mp member]
          exact Nat.le_add_right _ _
      | lineEnd | strayRegister => cases member
    · intro found member
      have bound := rest.numbers found member
      have next := first.next
      omega
  stored := by
    rw [Outline.behind, List.map_append, List.map_append, List.sum_append]
    exact Nat.add_le_add first.stored rest.stored

/-- The outline of some tokens fits what they take, with the texts that are known in the end. -/
theorem outline_fits {interner : Interner} (sound : Sound interner) (line : Nat)
    (stream : TokenStream) :
    (outline interner line stream).Fits interner line
      (widths (outline interner line stream).interner stream.pending) := by
  induction interner, line, stream using outline_induction with
  | exhausted interner line stream next =>
      rw [outline_none next]
      exact .done interner line _ none
  | ended interner line stream next =>
      rw [outline_end next]
      exact .done interner line _ none
  | stopped interner line stream token reason next more parsed =>
      rw [outline_stop next more parsed]
      exact .done interner line _ (some reason)
  | follows interner line stream token item following rest next more parsed inductionHypothesis =>
      obtain ⟨phrase, taken, reads, pending, found⟩ := parseItem_reads next parsed
      obtain ⟨soundItem, grown⟩ := phrase.item_grown sound
      rw [← found] at soundItem grown
      have later := outline_grown soundItem (item.lineAfter line) rest
      have first := reads.fits (grown.trans later) line
      rw [← found] at first
      rw [outline_item next more parsed, pending, widths_append]
      exact (inductionHypothesis soundItem).behind first

/-- Sharing copies takes no more bytes than one copy for each mention. -/
theorem Constant.foldl_place_length_le (interner : Interner) (constants placed : List Constant) :
    ((constants.foldl place placed).flatMap (bytes interner)).length ≤
      (placed.flatMap (bytes interner)).length + (constants.flatMap (bytes interner)).length := by
  induction constants generalizing placed with
  | nil => exact Nat.le_add_right _ _
  | cons constant rest inductionHypothesis =>
      have one : ((place placed constant).flatMap (bytes interner)).length ≤
          (placed.flatMap (bytes interner)).length + (constant.bytes interner).length := by
        have appended : ((placed ++ [constant]).flatMap (bytes interner)).length =
            (placed.flatMap (bytes interner)).length + (constant.bytes interner).length := by
          rw [List.flatMap_append, List.flatMap_singleton, List.length_append]
        cases constant with
        | named name value => exact Nat.le_of_eq appended
        | literal text =>
            rw [place]
            split
            · exact Nat.le_add_right _ _
            · exact Nat.le_of_eq appended
      have all := inductionHypothesis (place placed constant)
      rw [List.foldl_cons, List.flatMap_cons, List.length_append]
      omega

/-- Sharing aside, lines add constants and data. -/
theorem stored_sum (interner : Interner) (lines : List Line) :
    (lines.map (Line.stored interner)).sum =
      ((lines.flatMap Line.constants).flatMap (Constant.bytes interner)).length +
        (lines.flatMap (Line.dataBytes interner)).length := by
  induction lines with
  | nil => rfl
  | cons line rest inductionHypothesis =>
      rw [List.map_cons, List.sum_cons, inductionHypothesis, List.flatMap_cons, List.flatMap_cons,
        List.flatMap_append, List.length_append, List.length_append, Line.stored]
      omega

/-- What lines place takes no more bytes than the lines. -/
theorem addLines_size {interner : Interner} {lines : List NumberedLine} {placement : Placement}
    (added : lines.foldlM (Placement.addLine interner) .empty = .ok placement) :
    placement.rodata.size + placement.data.size ≤
      ((lines.map NumberedLine.content).map (Line.stored interner)).sum := by
  have agrees := Placement.addLines_agrees (Placement.empty_agrees interner) added
  rw [List.nil_append] at agrees
  have shared := Constant.foldl_place_length_le interner
    ((lines.map NumberedLine.content).flatMap Line.constants) []
  rw [stored_sum, ← Array.length_toList, ← Array.length_toList, agrees.constants.rodata,
    agrees.data, constants]
  rw [List.flatMap_nil, List.length_nil, Nat.zero_add] at shared
  exact Nat.add_le_add_right shared _

/-- What the parser keeps of a source fits the bytes of the source. -/
theorem source_fits {source : String} {tokens : List Token} {names : Interner}
    (lexed : (lex Interner.empty source.toList).value = .ok (tokens, names)) :
    (outline names 1 (.ofList tokens)).Fits names 1 source.utf8ByteSize := by
  obtain ⟨sound, widths, _, _⟩ := lex_fits lexed
  exact (outline_fits sound 1 (.ofList tokens)).mono
    (widths _ (outline_grown sound 1 (.ofList tokens)))

/-- What the first lines of a program place fits the bytes of its source. -/
theorem read_places {capacity : Nat} {source : String} {program : Program} {interner : Interner}
    {lines following : List NumberedLine} {placement : Placement}
    (parsed : (read capacity source).value = .ok (program, interner))
    (split : program.toList = lines ++ following)
    (added : lines.foldlM (Placement.addLine interner) .empty = .ok placement) :
    placement.rodata.size + placement.data.size ≤ source.utf8ByteSize := by
  obtain ⟨tokens, names, lexed, _, known, contents⟩ := read_outline parsed
  have stored := (source_fits lexed).stored
  rw [known, ← contents, split, List.map_append, List.map_append, List.sum_append] at stored
  exact Nat.le_trans (addLines_size added) (Nat.le_trans (Nat.le_add_right _ _) stored)

end Source

end RegisterMachine
