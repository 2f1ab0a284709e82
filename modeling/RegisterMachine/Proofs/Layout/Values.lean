/-
This file says which bytes the values of a program have, and that a program with a layout has no
line that is wrong by itself and no value without bytes.
-/

import RegisterMachine.Proofs.Layout.Entry

namespace RegisterMachine

open Source

/-- The bytes of a value. A number has its least significant byte first, three zeros follow a
character, and a zero follows a text with as many zeros as fill up the word. -/
inductive Encodes (interner : Interner) : Source.Operand → List UInt8 → Prop
  | integer {value : UInt32} {first second third fourth : UInt8}
      (digits : value.toNat = first.toNat + 0x100 * second.toNat + 0x10000 * third.toNat +
        0x1000000 * fourth.toNat) :
      Encodes interner (.integer value) [first, second, third, fourth]
  | char (byte : UInt8) : Encodes interner (.char byte) [byte, 0, 0, 0]
  | string {name : Symbol} {text : String} {padding : Nat}
      (resolved : interner.resolve name = .ok text) (short : padding < 4)
      (filled : 4 ∣ text.utf8ByteSize + 1 + padding) :
      Encodes interner (.string name)
        (text.toUTF8.data.toList ++ 0 :: List.replicate padding 0)

theorem utf8_length (text : String) : text.toUTF8.data.toList.length = text.utf8ByteSize := by
  rw [Array.length_toList]
  rfl

namespace Encodes

variable {interner : Interner}

/-- Values are whole words. -/
theorem whole {value : Source.Operand} {bytes : List UInt8}
    (encodes : Encodes interner value bytes) : 0 < bytes.length ∧ 4 ∣ bytes.length := by
  cases encodes with
  | integer digits => exact ⟨by simp, by simp⟩
  | char byte => exact ⟨by simp, by simp⟩
  | @string name text padding resolved short filled =>
      rw [List.length_append, List.length_cons, List.length_replicate, utf8_length,
        Nat.add_comm padding 1, ← Nat.add_assoc]
      exact ⟨by omega, filled⟩

theorem isValue {value : Source.Operand} {bytes : List UInt8}
    (encodes : Encodes interner value bytes) : value.isValue := by
  cases encodes <;> rfl

theorem of_word (value : UInt32) : Encodes interner (.integer value) (Word.toBytes value) := by
  have bound := value.toNat_lt
  apply integer
  simp only [UInt8.toNat_ofNat', Nat.shiftRight_eq_div_pow]
  omega

theorem of_text {name : Symbol} {text : String} (resolved : interner.resolve name = .ok text) :
    Encodes interner (.string name) (stringBytes text) := by
  rw [stringBytes, List.rightpad, List.append_assoc, List.singleton_append, List.length_append,
    utf8_length, List.length_singleton]
  apply string resolved
  · omega
  · omega

/-- Whatever has bytes in a section has those of its value. -/
theorem of_valueBytes {value : Source.Operand} {bytes : List UInt8}
    (valued : valueBytes? interner value = .ok (some bytes)) : Encodes interner value bytes := by
  cases value with
  | integer value =>
      cases valued
      exact of_word value
  | char byte =>
      cases valued
      exact .char byte
  | string name =>
      obtain ⟨text, resolved, returned⟩ := bindOk valued
      cases returned
      exact of_text resolved
  | register | symbol | absent => cases valued

end Encodes

/-- Each item of a sequence that succeeds has succeeded. -/
theorem foldlM_each {α β ε : Type} {step : β → α → Except ε β} {items : List α}
    {start result : β} (done : items.foldlM step start = .ok result) :
    ∀ item ∈ items, ∃ before after, step before item = .ok after := by
  induction items generalizing start with
  | nil => nofun
  | cons first rest inductionHypothesis =>
      rw [List.foldlM_cons] at done
      obtain ⟨next, now, later⟩ := bindOk done
      rw [List.forall_mem_cons]
      exact ⟨⟨start, next, now⟩, inductionHypothesis later⟩

/-- What each item of a sequence keeps is kept by the whole sequence. -/
theorem foldlM_keeps {α β ε : Type} {step : β → α → Except ε β} {holds : β → Prop}
    (keeps : ∀ item before after, holds before → step before item = .ok after → holds after)
    {items : List α} {start result : β} (first : holds start)
    (done : items.foldlM step start = .ok result) : holds result := by
  induction items generalizing start with
  | nil =>
      rw [← Except.ok.inj done]
      exact first
  | cons item rest inductionHypothesis =>
      rw [List.foldlM_cons] at done
      obtain ⟨next, now, later⟩ := bindOk done
      exact inductionHypothesis (keeps item start next first now) later

namespace Placement

variable {interner : Interner} {placement after : Placement}

/-- A named value that was added has bytes. -/
theorem addValue_encodes {line : Nat} {directive : Directive} {readOnly : Bool}
    {operands : Operands}
    (added : placement.addValue interner line directive readOnly operands = .ok after) :
    Encodes interner operands.second (operands.second.bytes interner) := by
  unfold addValue at added
  split at added
  · obtain ⟨value, found, added⟩ := bindOk added
    have valued := mapErrorOk found
    cases value with
    | none => cases added
    | some bytes =>
        have same : operands.second.bytes interner = bytes := by
          simp only [Operand.bytes, valued]
        rw [same]
        exact .of_valueBytes valued
  · cases added

section Clean

variable {before : List NumberedLine} {line : NumberedLine}

theorem define_new {extended : Placement} {number : Nat} {name : Symbol} {address : UInt32}
    (records : Records interner before placement)
    (defined : extended.define interner number name address = .ok after)
    (symbols : extended.symbols = placement.symbols) :
    name ∉ boundNames before := by
  obtain ⟨absent, _⟩ := define_ok defined
  have contains := records.contains name
  rw [symbols] at absent
  rw [SymbolTable.contains, absent] at contains
  simpa using contains

/-- A directive that gives a name to a value has both, and the name is new. -/
theorem addValue_right {directive : Directive} {readOnly : Bool} {operands : Operands}
    (records : Records interner before placement)
    (added : placement.addValue interner line.number directive readOnly operands = .ok after) :
    operands.first.name?.isSome ∧ operands.second.isValue ∧
      ∀ name, operands.first.name? = some name → name ∉ boundNames before := by
  obtain ⟨name, first, defined⟩ := addValue_ok added
  have isValue := (addValue_encodes added).isValue
  rw [first]
  refine ⟨rfl, isValue, ?_⟩
  intro other same
  rw [← Option.some.inj same]
  split at defined
  · exact define_new records defined rfl
  · exact define_new records defined rfl

/-- A line that was added is right by itself, gives no second entry point and binds no old name. -/
theorem addLine_right (records : Records interner before placement)
    (added : placement.addLine interner line = .ok after) :
    line.content.isWellDirected ∧
      (line.content.isStart → before.any (fun other => other.content.isStart) = false) ∧
      ∀ name, line.content.binds? = some name → name ∉ boundNames before := by
  have notStart {content : Line} (other : content.isStart = false) :
      content.isStart → before.any (fun other => other.content.isStart) = false :=
    fun start => absurd (other.symm.trans start) Bool.false_ne_true
  have unbinding {content : Line} (none : content.binds? = none) :
      ∀ name, content.binds? = some name → name ∉ boundNames before :=
    fun name binds => absurd (none.symm.trans binds) (Option.some_ne_none name).symm
  unfold addLine at added
  cases content : line.content with
  | label name =>
      rw [content] at added
      refine ⟨rfl, notStart rfl, ?_⟩
      intro other same
      rw [← Option.some.inj same]
      exact define_new records added rfl
  | instruction instruction => exact ⟨rfl, notStart rfl, unbinding rfl⟩
  | directive directive operands =>
      rw [content] at added
      cases directive with
      | start =>
          dsimp only [addDirective] at added
          split at added
          · rename_i target first
            split at added
            · cases added
            · rename_i unset
              refine ⟨by rw [Line.isWellDirected, first]; rfl, ?_, unbinding rfl⟩
              intro _
              rw [← records.started]
              simpa using unset
          · cases added
      | global =>
          dsimp only [addDirective] at added
          split at added
          · rename_i name first
            exact ⟨by rw [Line.isWellDirected, first]; rfl, notStart rfl, unbinding rfl⟩
          · cases added
      | data | rodata =>
          obtain ⟨named, isValue, new⟩ := addValue_right records added
          exact ⟨Bool.and_eq_true_iff.mpr ⟨named, isValue⟩, notStart rfl, new⟩
      | unknown => cases added

theorem addLine_clean (records : Records interner before placement) (clean : Clean before)
    (added : placement.addLine interner line = .ok after) : Clean (before ++ [line]) := by
  obtain ⟨directed, first, new⟩ := addLine_right records added
  rw [clean_append_singleton interner, NumberedLine.misdirected?_eq_none,
    NumberedLine.duplicate?_eq_none]
  exact ⟨clean, ⟨directed, first⟩, new⟩

/-- Lines that were all added are clean. -/
theorem addLines_clean {rest : List NumberedLine} (records : Records interner before placement)
    (clean : Clean before) (added : rest.foldlM (addLine interner) placement = .ok after) :
    Clean (before ++ rest) := by
  induction rest generalizing before placement with
  | nil =>
      rw [List.append_nil]
      exact clean
  | cons line rest inductionHypothesis =>
      rw [List.foldlM_cons] at added
      obtain ⟨next, first, others⟩ := bindOk added
      have whole := inductionHypothesis (addLine_records records first)
        (addLine_clean records clean first) others
      rw [List.append_assoc] at whole
      exact whole

end Clean

/-- The string operands that have copies have texts. -/
def Resolves (interner : Interner) (placement : Placement) : Prop :=
  ∀ text, placement.strings.contains text → ∃ resolved, interner.resolve text = .ok resolved

theorem addString_resolves {text : Symbol} (resolves : Resolves interner placement)
    (added : placement.addString interner text = .ok after) : Resolves interner after := by
  unfold addString at added
  split at added
  · cases added
    exact resolves
  · rename_i absent
    obtain ⟨resolved, found, returned⟩ := bindOk added
    have new : placement.strings.lookup text = none := by
      simpa [SymbolTable.contains] using absent
    intro other contained
    rw [← Except.ok.inj returned, SymbolTable.contains, SymbolTable.defineFirst, dif_pos new,
      SymbolTable.lookup_add, Option.isSome_or, Bool.or_eq_true] at contained
    rcases contained with earlier | last
    · exact resolves other earlier
    · by_cases same : text = other
      · rw [← same]
        exact ⟨resolved, mapErrorOk found⟩
      · rw [if_neg same] at last
        cases last

theorem addOperand_resolves {operand : Source.Operand} (resolves : Resolves interner placement)
    (added : placement.addOperand interner operand = .ok after) : Resolves interner after := by
  cases operand with
  | string text => exact addString_resolves resolves added
  | register | integer | char | symbol | absent =>
      cases added
      exact resolves

theorem addLine_resolves {line : NumberedLine} (resolves : Resolves interner placement)
    (added : placement.addLine interner line = .ok after) : Resolves interner after := by
  unfold addLine at added
  split at added
  · obtain ⟨_, same⟩ := define_ok added
    subst same
    exact resolves
  · obtain ⟨next, operands, returned⟩ := bindOk added
    rw [← Except.ok.inj returned]
    have kept : Resolves interner next :=
      foldlM_keeps (fun _ _ _ resolves added => addOperand_resolves resolves added) resolves
        operands
    exact kept
  · rename_i directive operands _
    unfold addDirective at added
    split at added
    · split at added
      · split at added
        · cases added
        · cases added
          exact resolves
      · cases added
    · split at added
      · cases added
        exact resolves
      · cases added
    · obtain ⟨_, _, defined⟩ := addValue_ok added
      obtain ⟨_, same⟩ := define_ok defined
      subst same
      exact resolves
    · obtain ⟨_, _, defined⟩ := addValue_ok added
      obtain ⟨_, same⟩ := define_ok defined
      subst same
      exact resolves
    · cases added

end Placement

namespace Layout

variable {interner : Interner} {program : Program} {layout : Layout}

/-- A program with a layout is clean. -/
theorem ofProgram_clean (laid : ofProgram interner program = .ok layout) :
    Clean program.toList := by
  obtain ⟨placed, _⟩ := ofProgram_stages laid
  exact Placement.addLines_clean (Placement.empty_records interner) clean_nil placed

/-- The named values of a program with a layout have bytes. -/
theorem value_encodes (laid : ofProgram interner program = .ok layout) {operands : Operands}
    (member : .directive .data operands ∈ program.contents ∨
      .directive .rodata operands ∈ program.contents) :
    Encodes interner operands.second (operands.second.bytes interner) := by
  obtain ⟨placed, _⟩ := ofProgram_stages laid
  rcases member with datum | constant
  · obtain ⟨line, inProgram, content⟩ := List.mem_map.mp datum
    obtain ⟨before, after, added⟩ := foldlM_each placed line inProgram
    rw [Placement.addLine, content] at added
    exact Placement.addValue_encodes added
  · obtain ⟨line, inProgram, content⟩ := List.mem_map.mp constant
    obtain ⟨before, after, added⟩ := foldlM_each placed line inProgram
    rw [Placement.addLine, content] at added
    exact Placement.addValue_encodes added

/-- The string operands of a program with a layout have bytes. -/
theorem literal_encodes (laid : ofProgram interner program = .ok layout) {text : Symbol}
    (mentioned : text ∈ program.contents.flatMap Line.literals) :
    Encodes interner (.string text) ((Operand.string text).bytes interner) := by
  obtain ⟨placed, _⟩ := ofProgram_stages laid
  obtain ⟨agrees, _⟩ := ofProgram_ok laid
  have empty : Placement.Resolves interner .empty := by
    intro other contained
    rw [SymbolTable.contains, show Placement.empty.strings = .empty from rfl,
      SymbolTable.lookup_empty] at contained
    cases contained
  have resolves : Placement.Resolves interner layout.toPlacement :=
    foldlM_keeps (fun _ _ _ resolves added => Placement.addLine_resolves resolves added) empty
      placed
  have contained : layout.strings.contains text := by
    rw [SymbolTable.contains, agrees.constants.strings]
    exact (literalAddress?_isSome interner program.contents text).mpr mentioned
  obtain ⟨resolved, found⟩ := resolves text contained
  have valued : valueBytes? interner (.string text) = .ok (some (stringBytes resolved)) := by
    simp only [valueBytes?, found, okBind, pureOk]
  have same : (Operand.string text).bytes interner = stringBytes resolved := by
    simp only [Operand.bytes, valued]
  rw [same]
  exact .of_text found

end Layout

end RegisterMachine
