/-
This file counts the read-only data of a program and says which names have an address. Both are read
off the constants that were placed.
-/

import RegisterMachine.Proofs.Layout.Conditions

namespace RegisterMachine.Source

namespace Constant

/-- The text of a string operand. -/
def text? : Constant → Option Symbol
  | named _ _ => none
  | literal text => some text

/-- The bytes of a named value. -/
def namedBytes (interner : Interner) : Constant → List UInt8
  | named _ value => value.bytes interner
  | literal _ => []

/-- Placing keeps the names. -/
theorem any_isNamed_place (name : Symbol) (placed : List Constant) (constant : Constant) :
    (place placed constant).any (isNamed name) =
      (placed.any (isNamed name) || constant.isNamed name) := by
  cases constant with
  | named other value => simp [place]
  | literal text =>
      rw [place]
      split
      · simp [isNamed]
      · simp [isNamed]

theorem any_isNamed_foldl (name : Symbol) (constants placed : List Constant) :
    (constants.foldl place placed).any (isNamed name) =
      (placed.any (isNamed name) || constants.any (isNamed name)) := by
  induction constants generalizing placed with
  | nil => simp
  | cons constant rest inductionHypothesis =>
      rw [List.foldl_cons, inductionHypothesis, any_isNamed_place, List.any_cons, Bool.or_assoc]

/-- The string operands among some constants are those of a set, and the constants take as many
bytes as their named values and one copy of each of these strings. -/
structure Counted (interner : Interner) (namedSize : Nat) (texts : Finset Symbol)
    (placed : List Constant) : Prop where
  literals : ∀ text, placed.any (isLiteral text) = decide (text ∈ texts)
  size : (placed.flatMap (bytes interner)).length =
    namedSize + texts.sum fun text => ((Operand.string text).bytes interner).length

theorem counted_nil (interner : Interner) : Counted interner 0 ∅ [] :=
  ⟨by simp, by simp⟩

variable {interner : Interner} {namedSize : Nat} {texts : Finset Symbol} {placed : List Constant}

theorem Counted.named (counted : Counted interner namedSize texts placed) (name : Symbol)
    (value : Operand) :
    Counted interner (namedSize + (value.bytes interner).length) texts
      (place placed (.named name value)) where
  literals text := by
    rw [place, List.any_append, counted.literals]
    simp [isLiteral]
  size := by
    rw [place, List.flatMap_append, List.length_append, counted.size, List.flatMap_singleton]
    simp only [bytes, Constant.value]
    omega

theorem Counted.literal (counted : Counted interner namedSize texts placed) (text : Symbol) :
    Counted interner namedSize (insert text texts) (place placed (.literal text)) := by
  rw [place, counted.literals]
  by_cases present : text ∈ texts
  · rw [if_pos (by simpa using present), Finset.insert_eq_self.mpr present]
    exact counted
  · rw [if_neg (by simpa using present)]
    constructor
    · intro other
      rw [List.any_append, counted.literals, Bool.or_comm]
      simp [isLiteral]
    · rw [List.flatMap_append, List.length_append, counted.size, List.flatMap_singleton,
        Finset.sum_insert present]
      simp only [bytes, Constant.value]
      omega

theorem Counted.foldl (counted : Counted interner namedSize texts placed)
    (constants : List Constant) :
    Counted interner
      (namedSize + (constants.map fun constant => (constant.namedBytes interner).length).sum)
      (texts ∪ (constants.filterMap text?).toFinset) (constants.foldl place placed) := by
  induction constants generalizing namedSize texts placed with
  | nil => simpa using counted
  | cons constant rest inductionHypothesis =>
      cases constant with
      | named name value =>
          have whole := inductionHypothesis (counted.named name value)
          rw [List.map_cons, List.sum_cons, ← Nat.add_assoc,
            List.filterMap_cons_none (by rfl : text? (.named name value) = none)]
          exact whole
      | literal text =>
          have whole := inductionHypothesis (counted.literal text)
          rw [List.map_cons, List.sum_cons,
            List.filterMap_cons_some (by rfl : text? (.literal text) = some text),
            List.toFinset_cons, Finset.union_insert, ← Finset.insert_union]
          simpa [namedBytes] using whole

end Constant

namespace Line

theorem constants_texts (line : Line) :
    line.constants.filterMap Constant.text? = line.literals := by
  unfold constants literals
  split
  · rfl
  · rw [List.filterMap_filterMap]
    apply List.filterMap_congr
    intro operand _
    cases operand <;> rfl
  · rename_i notRodata notInstruction
    cases line with
    | instruction content => exact absurd rfl (notInstruction content)
    | label name | directive named operands => rfl

/-- String operands are no named values. -/
theorem literals_unnamed {operands : List Operand} {constant : Constant}
    (placed : constant ∈ operands.filterMap Operand.literal?) :
    ∃ text, constant = .literal text := by
  obtain ⟨operand, _, literal⟩ := List.mem_filterMap.mp placed
  cases operand with
  | string text => exact ⟨text, (Option.some.inj literal).symm⟩
  | register | integer | char | symbol | absent => cases literal

theorem constants_namedBytes (interner : Interner) (line : Line) :
    (line.constants.map fun constant => (constant.namedBytes interner).length).sum =
      (line.constantBytes interner).length := by
  cases line with
  | label name => rfl
  | instruction content =>
      apply List.sum_eq_zero
      intro size member
      obtain ⟨constant, placed, same⟩ := List.mem_map.mp member
      obtain ⟨text, literal⟩ := literals_unnamed placed
      rw [← same, literal]
      rfl
  | directive directive operands =>
      obtain ⟨first, second⟩ := operands
      cases directive <;> cases first <;> rfl

theorem constants_any_isNamed (line : Line) (name : Symbol) :
    line.constants.any (Constant.isNamed name) ↔
      ∃ operands, line = .directive .rodata operands ∧ operands.first.name? = some name := by
  cases line with
  | label other => simp [constants]
  | instruction content =>
      have none : (content.operands.toList.filterMap Operand.literal?).any
          (Constant.isNamed name) = false := by
        rw [List.any_eq_false]
        intro constant placed
        obtain ⟨text, literal⟩ := literals_unnamed placed
        rw [literal]
        exact Bool.false_ne_true
      simp [constants, none]
  | directive directive operands =>
      obtain ⟨first, second⟩ := operands
      cases directive <;> cases first <;>
        simp [constants, Constant.isNamed, Operand.name?, eq_comm]

/-- A line binds a name as a label, as a datum or as a constant. -/
theorem binds?_eq_some (line : Line) (name : Symbol) :
    line.binds? = some name ↔
      line.isLabel name ∨ line.isDatum name ∨ line.constants.any (Constant.isNamed name) := by
  rw [constants_any_isNamed]
  cases line with
  | label other => simp [binds?, isLabel, isDatum, eq_comm]
  | instruction content => simp [binds?, isLabel, isDatum]
  | directive directive operands =>
      cases directive <;> simp [binds?, isLabel, isDatum, Operand.name?_eq_some]

end Line

/-- The names of the constants are those that lines give to constants. -/
theorem constants_any_isNamed (lines : List Line) (name : Symbol) :
    (constants lines).any (Constant.isNamed name) =
      lines.any fun line => line.constants.any (Constant.isNamed name) := by
  rw [constants, Constant.any_isNamed_foldl, List.any_nil, Bool.false_or, List.any_flatMap]

/-- A name has an address exactly if a line binds it. -/
theorem symbolAddress?_isSome (interner : Interner) (lines : List Line) (name : Symbol) :
    (symbolAddress? interner lines name).isSome ↔ ∃ line ∈ lines, line.binds? = some name := by
  rw [symbolAddress?, Option.isSome_or, Option.isSome_or, labelAddress?, dataAddress?,
    constantAddress?, Constant.address?_isSome, Option.isSome_map, Option.isSome_map,
    offset?_isSome, offset?_isSome, constants_any_isNamed]
  simp only [Bool.or_eq_true, List.any_eq_true, Line.binds?_eq_some]
  constructor
  · rintro (⟨line, member, label⟩ | ⟨line, member, datum⟩ | ⟨line, member, constant⟩)
    · exact ⟨line, member, .inl label⟩
    · exact ⟨line, member, .inr (.inl datum)⟩
    · exact ⟨line, member, .inr (.inr constant)⟩
  · rintro ⟨line, member, label | datum | constant⟩
    · exact .inl ⟨line, member, label⟩
    · exact .inr (.inl ⟨line, member, datum⟩)
    · exact .inr (.inr ⟨line, member, constant⟩)

theorem mem_boundNames (interner : Interner) (lines : List NumberedLine) (name : Symbol) :
    name ∈ boundNames lines ↔
      (symbolAddress? interner (lines.map NumberedLine.content) name).isSome := by
  rw [symbolAddress?_isSome, boundNames, List.mem_filterMap]
  simp

theorem flatMap_texts (lines : List Line) :
    (lines.flatMap Line.constants).filterMap Constant.text? = lines.flatMap Line.literals := by
  rw [List.filterMap_flatMap]
  simp only [Line.constants_texts]

theorem flatMap_namedBytes (interner : Interner) (lines : List Line) :
    ((lines.flatMap Line.constants).map
      fun constant => (constant.namedBytes interner).length).sum =
      (lines.map fun line => (line.constantBytes interner).length).sum := by
  induction lines with
  | nil => rfl
  | cons line rest inductionHypothesis =>
      rw [List.flatMap_cons, List.map_append, List.sum_append, inductionHypothesis,
        Line.constants_namedBytes, List.map_cons, List.sum_cons]

/-- The constants take the bytes of the named values and of one copy of each string operand. -/
theorem constants_size (interner : Interner) (lines : List Line) :
    ((constants lines).flatMap (Constant.bytes interner)).length = rodataSize interner lines := by
  have counted := (Constant.counted_nil interner).foldl (lines.flatMap Line.constants)
  have size := counted.size
  rw [Nat.zero_add, Finset.empty_union, flatMap_texts, flatMap_namedBytes] at size
  exact size

/-- A string operand of an instruction has a copy. -/
theorem literalAddress?_isSome (interner : Interner) (lines : List Line) (text : Symbol) :
    (literalAddress? interner lines text).isSome ↔ text ∈ lines.flatMap Line.literals := by
  have counted := (Constant.counted_nil interner).foldl (lines.flatMap Line.constants)
  have literals := counted.literals text
  rw [Finset.empty_union, flatMap_texts] at literals
  rw [literalAddress?, Constant.address?_isSome, constants, literals]
  simp

end RegisterMachine.Source
