/-
This file reads instructions back from their texts. The text of a decoded instruction gives back its
opcode and its operands, so two of them with one text differ in their flags at most.
-/

import Mathlib.Data.List.TakeWhile
import RegisterMachine.Instruction.Disassembly
import RegisterMachine.Proofs.Instruction.Canonical
import RegisterMachine.Proofs.Isa.Opcode
import RegisterMachine.Proofs.Isa.Register
import RegisterMachine.Proofs.Text.Numeral

namespace RegisterMachine

namespace Register

/-- The id that is shown by a name. -/
def idOfName : List Char → UInt8
  | '?' :: digits => UInt8.ofNat (Text.number 10 digits)
  | name => ((ofName? (String.ofList name)).map id).getD 0

theorem idOfName_nameOfId (id : UInt8) : idOfName (nameOfId id).toList = id := by
  rcases nameOfId_toList id with ⟨register, same, shown⟩ | shown
  · rw [shown, same]
    cases register <;> decide +kernel
  · rw [shown, idOfName, Text.number_toDigits (by decide) (by decide), UInt8.ofNat_toNat]

/-- The characters of which the names of ids consist. -/
def isNameCharacter (character : Char) : Bool :=
  character.isAlphanum || character == '?'

theorem nameOfId_isNameCharacter (id : UInt8) :
    ∀ character ∈ (nameOfId id).toList, isNameCharacter character := by
  intro character member
  rcases nameOfId_toList id with ⟨register, _, shown⟩ | shown
  · rw [shown] at member
    have each : register.name.toList.all isNameCharacter := by
      cases register <;> decide +kernel
    exact List.all_eq_true.mp each character member
  · rw [shown, List.mem_cons] at member
    rcases member with rfl | digit
    · rfl
    · have decimal := Nat.isDigit_of_mem_toDigits (by decide) (by decide) digit
      rw [isNameCharacter, Char.isAlphanum, decimal, Bool.or_true, Bool.true_or]

/-- The name of an id begins with a capital letter or with a question mark. -/
theorem nameOfId_head? (id : UInt8) :
    ∃ first, (nameOfId id).toList.head? = some first ∧ first.isDigit = false ∧
      first ∉ ['@', '[', 'p'] := by
  rcases nameOfId_toList id with ⟨register, _, shown⟩ | shown
  · rw [shown]
    cases register <;> exact ⟨_, rfl, by decide⟩
  · exact ⟨'?', by rw [shown, List.head?_cons], by decide⟩

end Register

namespace Operand

/-- The characters of the text of an operand. -/
def spelled : Operand → List Char
  | registerDirect id => (Register.nameOfId id).toList
  | immediateInt value => Nat.toDigits 10 value.toNat
  | immediateAddress address => '@' :: '0' :: 'x' :: Text.paddedDigits 16 6 address.toNat
  | registerIndirect id => '[' :: ((Register.nameOfId id).toList ++ [']'])
  | baseOffset base offset =>
      '[' :: ((Register.nameOfId base).toList ++ ((Text.signedDecimal offset).toList ++ [']']))
  | pcRelative offset => 'p' :: 'c' :: (Text.signedDecimal offset).toList
  | absent => []

theorem text_toList (operand : Operand) : operand.text.toList = operand.spelled := by
  cases operand with
  | registerDirect id => rfl
  | immediateInt value =>
      rw [text, Nat.toString_eq_repr, Nat.toList_repr]
      rfl
  | immediateAddress address =>
      rw [text, Text.address, String.toList_append, Text.hexadecimal_toList]
      rfl
  | registerIndirect id =>
      rw [text, String.toList_append, String.toList_append]
      rfl
  | baseOffset base offset =>
      rw [text, String.toList_append, String.toList_append, String.toList_append,
        List.append_assoc, List.append_assoc]
      rfl
  | pcRelative offset =>
      rw [text, String.toList_append]
      rfl
  | absent => rfl

/-- The operand that stands in brackets, of which the second one ends the text. -/
def ofBracketed (inside : List Char) : Operand :=
  let id := Register.idOfName (inside.takeWhile Register.isNameCharacter)
  match inside.dropWhile Register.isNameCharacter with
  | [']'] => .registerIndirect id
  | offset => .baseOffset id (Text.wordOfSigned offset.dropLast)

/-- The operand that a text spells. The first character says how the operand is located. -/
def ofText (text : List Char) : Operand :=
  match text.head? with
  | none => .absent
  | some '@' => .immediateAddress (UInt32.ofNat (Text.number 16 (text.drop 3)))
  | some '[' => ofBracketed (text.drop 1)
  | some 'p' => .pcRelative (Text.wordOfSigned (text.drop 2))
  | some first =>
      if first.isDigit then .immediateInt (UInt32.ofNat (Text.number 10 text))
      else .registerDirect (Register.idOfName text)

/-- The name that stands in front of another character ends there. -/
theorem name_ends (id : UInt8) {next : Char} (rest : List Char)
    (stops : ¬Register.isNameCharacter next) :
    ((Register.nameOfId id).toList ++ next :: rest).takeWhile Register.isNameCharacter =
        (Register.nameOfId id).toList ∧
      ((Register.nameOfId id).toList ++ next :: rest).dropWhile Register.isNameCharacter =
        next :: rest := by
  have each := Register.nameOfId_isNameCharacter id
  rw [List.takeWhile_append_of_pos each, List.dropWhile_append_of_pos each,
    List.takeWhile_cons_of_neg stops, List.dropWhile_cons_of_neg stops, List.append_nil]
  exact ⟨rfl, rfl⟩

theorem ofBracketed_register (id : UInt8) :
    ofBracketed ((Register.nameOfId id).toList ++ [']']) = .registerIndirect id := by
  have stops : ¬Register.isNameCharacter ']' := by decide
  obtain ⟨name, bracket⟩ := name_ends id [] stops
  rw [ofBracketed, name, bracket, Register.idOfName_nameOfId]
  rfl

theorem ofBracketed_offset (base : UInt8) (offset : UInt32) :
    ofBracketed ((Register.nameOfId base).toList ++ ((Text.signedDecimal offset).toList ++ [']'])) =
      .baseOffset base offset := by
  -- The sign ends the name.
  obtain ⟨sign, digits, signed, stops, other⟩ : ∃ sign digits,
      (Text.signedDecimal offset).toList = sign :: digits ∧ ¬Register.isNameCharacter sign ∧
        sign ≠ ']' := by
    rw [Text.signedDecimal_toList]
    split
    · exact ⟨_, _, rfl, by decide, by decide⟩
    · exact ⟨_, _, rfl, by decide, by decide⟩
  obtain ⟨name, behind⟩ := name_ends base (digits ++ [']']) stops
  have back : (sign :: (digits ++ [']'])).dropLast = (Text.signedDecimal offset).toList := by
    rw [signed, ← List.cons_append, List.dropLast_concat]
  rw [signed, List.cons_append, ofBracketed, name, behind, Register.idOfName_nameOfId]
  split
  · rename_i same
    exact absurd (List.cons.inj same).1 other
  · rw [back, Text.wordOfSigned_signedDecimal]

/-- Numbers and registers have no mark in front. -/
theorem ofText_unmarked {text : List Char} {first : Char} (begins : text.head? = some first)
    (unmarked : first ∉ ['@', '[', 'p']) :
    ofText text =
      if first.isDigit then .immediateInt (UInt32.ofNat (Text.number 10 text))
      else .registerDirect (Register.idOfName text) := by
  unfold ofText
  rw [begins]
  split
  case h_1 => contradiction
  case h_5 same =>
    obtain rfl := Option.some.inj same
    rfl
  all_goals
    rename_i same
    obtain rfl := Option.some.inj same
    exact absurd (by decide) unmarked

theorem ofText_name (id : UInt8) : ofText (Register.nameOfId id).toList = .registerDirect id := by
  obtain ⟨first, begins, letter, unmarked⟩ := Register.nameOfId_head? id
  rw [ofText_unmarked begins unmarked, letter, Register.idOfName_nameOfId]
  rfl

theorem ofText_digits (value : UInt32) :
    ofText (Nat.toDigits 10 value.toNat) = .immediateInt value := by
  obtain ⟨first, begins⟩ := Option.isSome_iff_exists.mp
    (List.isSome_head?.mpr (Nat.toDigits_ne_nil (n := value.toNat) (b := 10)))
  have decimal := Nat.isDigit_of_mem_toDigits (by decide) (by decide)
    (List.mem_of_mem_head? begins)
  have unmarked : first ∉ ['@', '[', 'p'] := by
    intro mark
    simp only [List.mem_cons, List.not_mem_nil, or_false] at mark
    obtain rfl | rfl | rfl := mark <;> exact absurd decimal (by decide)
  rw [ofText_unmarked begins unmarked, if_pos decimal,
    Text.number_toDigits (by decide) (by decide), UInt32.ofNat_toNat]

/-- An operand is read back from its text. -/
theorem ofText_text (operand : Operand) : ofText operand.text.toList = operand := by
  rw [text_toList]
  cases operand with
  | registerDirect id => exact ofText_name id
  | immediateInt value => exact ofText_digits value
  | immediateAddress address =>
      have value : Text.number 16 (Text.paddedDigits 16 6 address.toNat) = address.toNat :=
        Text.number_paddedDigits (by decide) (by decide) 6 address.toNat
      exact congrArg Operand.immediateAddress
        ((congrArg UInt32.ofNat value).trans UInt32.ofNat_toNat)
  | registerIndirect id => exact ofBracketed_register id
  | baseOffset base offset => exact ofBracketed_offset base offset
  | pcRelative offset =>
      exact congrArg Operand.pcRelative (Text.wordOfSigned_signedDecimal offset)
  | absent => rfl

/-- The characters of which the texts of operands consist. -/
def isTextCharacter (character : Char) : Bool :=
  Register.isNameCharacter character || character ∈ ['@', '[', ']', '+', '-']

theorem isTextCharacter_of_digits {base : Nat} (few : base ≤ 16) {digits : List Char}
    (each : ∀ character ∈ digits, ∃ digit < base, character = Nat.digitChar digit) :
    ∀ character ∈ digits, isTextCharacter character := by
  have shown : ∀ digit < 16, isTextCharacter (Nat.digitChar digit) := by decide
  intro character member
  obtain ⟨digit, small, rfl⟩ := each character member
  exact shown digit (Nat.lt_of_lt_of_le small few)

theorem isTextCharacter_signed (offset : UInt32) :
    ∀ character ∈ (Text.signedDecimal offset).toList, isTextCharacter character := by
  have digits (value : Nat) :
      ∀ character ∈ Nat.toDigits 10 value, isTextCharacter character :=
    isTextCharacter_of_digits (by decide) fun _ => Text.mem_toDigits (by decide)
  rw [Text.signedDecimal_toList]
  split
  · exact List.forall_mem_cons.mpr ⟨by decide, digits _⟩
  · exact List.forall_mem_cons.mpr ⟨by decide, digits _⟩

theorem isTextCharacter_of_mem (operand : Operand) :
    ∀ character ∈ operand.text.toList, isTextCharacter character := by
  have name (id : UInt8) : ∀ character ∈ (Register.nameOfId id).toList,
      isTextCharacter character := by
    intro character member
    rw [isTextCharacter, Register.nameOfId_isNameCharacter id character member, Bool.true_or]
  rw [text_toList]
  cases operand with
  | registerDirect id => exact name id
  | immediateInt value =>
      exact isTextCharacter_of_digits (by decide) fun _ => Text.mem_toDigits (by decide)
  | immediateAddress address =>
      simp only [spelled, List.forall_mem_cons]
      refine ⟨by decide, by decide, by decide, ?_⟩
      exact isTextCharacter_of_digits (by decide) fun _ => Text.mem_paddedDigits (by decide)
  | registerIndirect id =>
      simp only [spelled, List.forall_mem_cons, List.forall_mem_append]
      exact ⟨by decide, name id, by decide, nofun⟩
  | baseOffset base offset =>
      simp only [spelled, List.forall_mem_cons, List.forall_mem_append]
      exact ⟨by decide, name base, isTextCharacter_signed offset, by decide, nofun⟩
  | pcRelative offset =>
      simp only [spelled, List.forall_mem_cons]
      exact ⟨by decide, by decide, isTextCharacter_signed offset⟩
  | absent => nofun

theorem comma_not_mem (operand : Operand) : ',' ∉ operand.text.toList :=
  fun member => absurd (operand.isTextCharacter_of_mem ',' member) (by decide)

end Operand

namespace Instruction

/-- What a text says: the opcode, and behind a space the operands with a comma and a space between
them. -/
def ofText? (text : List Char) : Option (Opcode × Operand × Operand) :=
  let operands := ((text.dropWhile (· ≠ ' ')).drop 1).splitOn ','
  (Opcode.ofMnemonic? (String.ofList (text.takeWhile (· ≠ ' ')))).map fun opcode =>
    (opcode, .ofText (operands.getD 0 []), .ofText ((operands.getD 1 []).drop 1))

/-- A second operand does not stand without a first one. -/
def Gapless (instruction : Instruction) : Prop :=
  instruction.dest = .absent → instruction.src = .absent

theorem text_nullary {instruction : Instruction} (first : instruction.dest = .absent)
    (second : instruction.src = .absent) :
    instruction.text.toList = instruction.opcode.mnemonic.toList := by
  simp [text, operands, first, second]

theorem text_unary {instruction : Instruction} (first : instruction.dest ≠ .absent)
    (second : instruction.src = .absent) :
    instruction.text.toList =
      instruction.opcode.mnemonic.toList ++ ' ' :: instruction.dest.text.toList := by
  simp [text, operands, first, second]

theorem text_binary {instruction : Instruction} (first : instruction.dest ≠ .absent)
    (second : instruction.src ≠ .absent) :
    instruction.text.toList =
      instruction.opcode.mnemonic.toList ++
        ' ' :: (instruction.dest.text.toList ++ ',' :: ' ' :: instruction.src.text.toList) := by
  simp [text, operands, first, second]

theorem ofText?_mnemonic (opcode : Opcode) :
    ofText? opcode.mnemonic.toList = some (opcode, .absent, .absent) := by
  have mnemonic := Opcode.ofMnemonic?_eq_some.mpr opcode.lowercase_mnemonic
  rw [ofText?, List.takeWhile_eq_self_iff.mpr opcode.mnemonic_word,
    List.dropWhile_eq_nil_iff.mpr opcode.mnemonic_word, String.ofList_toList, mnemonic]
  rfl

theorem ofText?_operands (opcode : Opcode) (behind : List Char) :
    ofText? (opcode.mnemonic.toList ++ ' ' :: behind) =
      some (opcode, .ofText ((behind.splitOn ',').getD 0 []),
        .ofText (((behind.splitOn ',').getD 1 []).drop 1)) := by
  have mnemonic := Opcode.ofMnemonic?_eq_some.mpr opcode.lowercase_mnemonic
  rw [ofText?, List.takeWhile_append_of_pos opcode.mnemonic_word,
    List.dropWhile_append_of_pos opcode.mnemonic_word, List.takeWhile_cons_of_neg (by decide),
    List.dropWhile_cons_of_neg (by decide), List.append_nil, String.ofList_toList, mnemonic]
  rfl

/-- An instruction is read back from its text, up to its flags. -/
theorem ofText?_text {instruction : Instruction} (gapless : instruction.Gapless) :
    ofText? instruction.text.toList =
      some (instruction.opcode, instruction.dest, instruction.src) := by
  by_cases first : instruction.dest = .absent
  · rw [text_nullary first (gapless first), ofText?_mnemonic, first, gapless first]
  · have alone := instruction.dest.comma_not_mem
    by_cases second : instruction.src = .absent
    · rw [text_unary first second, ofText?_operands, List.splitOn_eq_singleton alone,
        List.getD_cons_zero, List.getD_cons_succ, Operand.ofText_text, second]
      rfl
    · have behind : ',' ∉ ' ' :: instruction.src.text.toList :=
        List.not_mem_cons_of_ne_of_not_mem (by decide) instruction.src.comma_not_mem
      rw [text_binary first second, ofText?_operands,
        List.splitOn_append_cons_self_of_not_mem alone, List.splitOn_eq_singleton behind,
        List.getD_cons_zero, List.getD_cons_succ, List.getD_cons_zero, List.drop_succ_cons,
        List.drop_zero, Operand.ofText_text, Operand.ofText_text]

theorem decode?_gapless {bytes : List UInt8} {instruction : Instruction}
    (decoded : decode? bytes = some (.ok instruction)) : instruction.Gapless := by
  intro absent
  apply (decode?_withinArity decoded).src
  have none : ¬0 < instruction.opcode.arity := fun used =>
    (decode?_complete decoded).dest used absent
  omega

/-- Instructions with the same opcode and the same operands have the same text. -/
theorem text_congr {first second : Instruction} (opcode : first.opcode = second.opcode)
    (dest : first.dest = second.dest) (src : first.src = second.src) :
    first.text = second.text := by
  rw [text, text, operands, operands, opcode, dest, src]

/-- Disassembly is unambiguous: decoded instructions have one text exactly if they have the same
opcode and the same operands, which is to say if they differ in their flags at most. -/
theorem text_unambiguous {bytes others : List UInt8} {first second : Instruction}
    (decoded : decode? bytes = some (.ok first))
    (decodedOther : decode? others = some (.ok second)) :
    (first.text = second.text ↔
      first.opcode = second.opcode ∧ first.dest = second.dest ∧ first.src = second.src) ∧
    (first.text = second.text ↔
      ∃ global sourceImmediate, second = { first with global, sourceImmediate }) := by
  have determines : first.text = second.text →
      first.opcode = second.opcode ∧ first.dest = second.dest ∧ first.src = second.src := by
    intro same
    have read := ofText?_text (decode?_gapless decoded)
    rw [same, ofText?_text (decode?_gapless decodedOther), Option.some.injEq, Prod.mk.injEq,
      Prod.mk.injEq] at read
    exact ⟨read.1.symm, read.2.1.symm, read.2.2.symm⟩
  refine ⟨⟨determines, fun ⟨opcode, dest, src⟩ => text_congr opcode dest src⟩, ?_, ?_⟩
  · intro same
    obtain ⟨opcode, dest, src⟩ := determines same
    refine ⟨second.global, second.sourceImmediate, ?_⟩
    rw [opcode, dest, src]
  · rintro ⟨global, sourceImmediate, rfl⟩
    exact text_congr rfl rfl rfl

/-- An offset of four bytes back is told from one of four bytes forward, and the flags are not
shown. -/
theorem text_unambiguous_signs :
    let back : Instruction := ⟨.mov, .registerDirect 11, .baseOffset 8 0xFFFFFFFC, false, false⟩
    let forward : Instruction := ⟨.mov, .registerDirect 11, .baseOffset 8 4, false, false⟩
    let marked : Instruction := ⟨.mov, .registerDirect 11, .baseOffset 8 0xFFFFFFFC, true, true⟩
    decode? [0x02, 11, 8, 0xFC, 0xFF, 0xFF, 0xFF, 0x0C] = some (.ok back) ∧
      decode? [0x02, 11, 8, 0x04, 0x00, 0x00, 0x00, 0x0C] = some (.ok forward) ∧
      decode? [0x02, 11, 8, 0xFC, 0xFF, 0xFF, 0xFF, 0x8D] = some (.ok marked) ∧
      back.text ≠ forward.text ∧ back.text = marked.text := by
  intro back forward marked
  have first : decode? [0x02, 11, 8, 0xFC, 0xFF, 0xFF, 0xFF, 0x0C] = some (.ok back) := rfl
  have second : decode? [0x02, 11, 8, 0x04, 0x00, 0x00, 0x00, 0x0C] = some (.ok forward) := rfl
  have third : decode? [0x02, 11, 8, 0xFC, 0xFF, 0xFF, 0xFF, 0x8D] = some (.ok marked) := rfl
  refine ⟨first, second, third, fun same => ?_, ?_⟩
  · have src := ((text_unambiguous first second).1.mp same).2.2
    exact absurd src (by decide)
  · exact (text_unambiguous first third).2.mpr ⟨true, true, rfl⟩

end Instruction

end RegisterMachine
