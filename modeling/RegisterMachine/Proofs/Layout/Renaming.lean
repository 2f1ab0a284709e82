/-
This file compares the layouts of two programs that are the same but for the symbols of their names
and of their strings. Every name and every string gets the address that its partner gets, or both
programs are refused for the same reason.
-/

import Mathlib.Logic.Relator
import RegisterMachine.Proofs.Layout.Contents
import RegisterMachine.Proofs.Layout.Conditions
import RegisterMachine.Proofs.Source.Alike

namespace RegisterMachine

open Source

namespace EmitError

/-- The same error about another name. -/
def renamed (rename : String → String) : EmitError → EmitError
  | duplicateSymbol line name => .duplicateSymbol line (rename name)
  | undefinedSymbol line name => .undefinedSymbol line (rename name)
  | invalidEntry line name => .invalidEntry line (rename name)
  | unknownDirective line => .unknownDirective line
  | invalidDirective line directive fault => .invalidDirective line directive fault
  | sectionOverflow segment size => .sectionOverflow segment size
  | encode line reason => .encode line reason

/-- The second program is refused for the same reason. -/
def Renames (rename : String → String) (reason other : Abort EmitError) : Prop :=
  other = reason.map (renamed rename)

end EmitError

namespace Corresponds

variable {α β γ δ ε ζ : Type} {related : α → β → Prop} {values : γ → δ → Prop}
  {errors : ε → ζ → Prop}

theorem foldlM {step : γ → α → Except ε γ} {stepOther : δ → β → Except ζ δ} {items : List α}
    {others : List β} (same : List.Forall₂ related items others)
    (steps : ∀ value valueOther item other, values value valueOther → related item other →
      Corresponds values errors (step value item) (stepOther valueOther other))
    {value : γ} {valueOther : δ} (begins : values value valueOther) :
    Corresponds values errors (items.foldlM step value) (others.foldlM stepOther valueOther) := by
  induction same generalizing value valueOther with
  | nil => exact .ok begins
  | cons first _ inductionHypothesis =>
      rw [List.foldlM_cons, List.foldlM_cons]
      exact (steps _ _ _ _ begins first).bind fun _ _ next => inductionHypothesis next

theorem mapM {change : α → Except ε γ} {changeOther : β → Except ζ δ} {items : List α}
    {others : List β} (same : List.Forall₂ related items others)
    (changes : ∀ item other, related item other →
      Corresponds values errors (change item) (changeOther other)) :
    Corresponds (List.Forall₂ values) errors (items.mapM change) (others.mapM changeOther) := by
  induction same with
  | nil => exact .ok .nil
  | cons first _ inductionHypothesis =>
      rw [List.mapM_cons, List.mapM_cons]
      refine (changes _ _ first).bind fun _ _ head => ?_
      exact inductionHypothesis.bind fun _ _ tail => .ok (.cons head tail)

end Corresponds

namespace SymbolTable

variable {α : Type} {related : Symbol → Symbol → Prop} {table other : SymbolTable α}

/-- Tables that bind related symbols to the same values in the same order. -/
def Renamed (related : Symbol → Symbol → Prop) (table other : SymbolTable α) : Prop :=
  List.Forall₂ (fun entry entryOther => related entry.1 entryOther.1 ∧ entry.2 = entryOther.2)
    table.toList other.toList

theorem Renamed.lookup (unique : Relator.BiUnique related) (same : table.Renamed related other)
    {name nameOther : Symbol} (pair : related name nameOther) :
    table.lookup name = other.lookup nameOther := by
  rw [lookupToList, lookupToList]
  unfold Renamed at same
  generalize table.toList = entries, other.toList = others at same
  induction same with
  | nil => rfl
  | @cons entry entryOther _ _ here _ inductionHypothesis =>
      obtain ⟨pairHere, value⟩ := here
      have equal : (name == entry.1) = (nameOther == entryOther.1) := by
        rw [Bool.eq_iff_iff, beq_iff_eq, beq_iff_eq]
        constructor
        · rintro rfl
          exact unique.2 pair pairHere
        · rintro rfl
          exact unique.1 pair pairHere
      rw [List.lookup_cons, List.lookup_cons, equal, inductionHypothesis, value]

theorem Renamed.contains (unique : Relator.BiUnique related) (same : table.Renamed related other)
    {name nameOther : Symbol} (pair : related name nameOther) :
    table.contains name = other.contains nameOther := by
  rw [SymbolTable.contains, SymbolTable.contains, same.lookup unique pair]

theorem Renamed.add (same : table.Renamed related other) {name nameOther : Symbol}
    (pair : related name nameOther) (value : α) (absent : table.lookup name = none)
    (absentOther : other.lookup nameOther = none) :
    (table.add name value absent).Renamed related (other.add nameOther value absentOther) := by
  rw [Renamed, addToList, addToList]
  exact List.rel_append same (.cons ⟨pair, rfl⟩ .nil)

theorem Renamed.defineFirst (unique : Relator.BiUnique related)
    (same : table.Renamed related other) {name nameOther : Symbol}
    (pair : related name nameOther) (value : α) :
    (table.defineFirst name value).Renamed related (other.defineFirst nameOther value) := by
  have lookup := same.lookup unique pair
  unfold SymbolTable.defineFirst
  by_cases absent : table.lookup name = none
  · rw [dif_pos absent, dif_pos (lookup ▸ absent)]
    exact same.add pair value absent _
  · rw [dif_neg absent, dif_neg (lookup ▸ absent)]
    exact same

end SymbolTable

namespace Source

section Related

variable (names strings : Symbol → Symbol → Prop)

/-- The same operand with another name or another string. -/
inductive Operand.Renamed : Operand → Operand → Prop
  | symbol {name other : Symbol} (pair : names name other) : Renamed (.symbol name) (.symbol other)
  | string {text other : Symbol} (pair : strings text other) :
      Renamed (.string text) (.string other)
  | plain (operand : Operand) (unnamed : operand.names = []) : Renamed operand operand

structure Operands.Renamed (operands others : Operands) : Prop where
  first : Operand.Renamed names strings operands.first others.first
  second : Operand.Renamed names strings operands.second others.second

/-- The same line with other names and strings. -/
inductive Line.Renamed : Line → Line → Prop
  | label {name other : Symbol} (pair : names name other) : Renamed (.label name) (.label other)
  | instruction {opcode : Opcode} {operands others : Operands}
      (same : Operands.Renamed names strings operands others) :
      Renamed (.instruction ⟨opcode, operands⟩) (.instruction ⟨opcode, others⟩)
  | directive {named : Directive} {operands others : Operands}
      (same : Operands.Renamed names strings operands others) :
      Renamed (.directive named operands) (.directive named others)

structure NumberedLine.Renamed (line other : NumberedLine) : Prop where
  number : other.number = line.number
  content : Line.Renamed names strings line.content other.content

end Related

/-- What makes symbols partners: names that are spelled as the new names say, and strings with the
same text. No symbol has two partners of one kind. -/
structure Pairing (rename : String → String) (first second : Interner)
    (names strings : Symbol → Symbol → Prop) : Prop where
  nameTexts : ∀ name other, names name other →
    ∃ text, first.Spells name text ∧ second.Spells other (rename text)
  stringTexts : ∀ text other, strings text other → SameText first second text other
  uniqueNames : Relator.BiUnique names
  uniqueStrings : Relator.BiUnique strings

end Source

open EmitError (Renames)

section Placing

variable {rename : String → String} {first second : Interner}
  {names strings : Symbol → Symbol → Prop}

/-- Both programs are refused for the name. -/
theorem Source.Pairing.raise {α β : Type} {values : α → β → Prop}
    (pairing : Pairing rename first second names strings) {name other : Symbol}
    (pair : names name other) {error : String → EmitError}
    (renamed : ∀ text, (error text).renamed rename = error (rename text)) :
    Corresponds values (Renames rename)
      (Abort.lift (first.resolve name) >>= fun text => throw (.raised (error text)))
      (Abort.lift (second.resolve other) >>= fun text => throw (.raised (error text))) := by
  obtain ⟨text, spelled, spelledOther⟩ := pairing.nameTexts name other pair
  rw [spelled.resolve, spelledOther.resolve]
  exact .error (congrArg Abort.raised (renamed text).symm)

namespace Placement

variable {placement other : Placement}

/-- Placements that give partners the same addresses. -/
structure Renamed (names strings : Symbol → Symbol → Prop) (placement other : Placement) :
    Prop where
  symbols : placement.symbols.Renamed names other.symbols
  codeLength : placement.codeLength = other.codeLength
  rodata : placement.rodata = other.rodata
  data : placement.data = other.data
  globals : placement.globals.Renamed names other.globals
  strings : placement.strings.Renamed strings other.strings
  entry : Option.Rel (fun entry entryOther => names entry.1 entryOther.1 ∧ entry.2 = entryOther.2)
    placement.entry other.entry

theorem empty_renamed : Renamed names strings empty empty :=
  ⟨.nil, rfl, rfl, rfl, .nil, .nil, .none⟩

theorem define_renamed (pairing : Pairing rename first second names strings)
    (same : placement.Renamed names strings other) {name nameOther : Symbol}
    (pair : names name nameOther) (line : Nat) (address : UInt32) :
    Corresponds (Renamed names strings) (Renames rename)
      (placement.define first line name address)
      (other.define second line nameOther address) := by
  have lookup := same.symbols.lookup pairing.uniqueNames pair
  unfold define SymbolTable.define?
  by_cases absent : placement.symbols.lookup name = none
  · rw [dif_pos absent, dif_pos (lookup ▸ absent)]
    exact .ok { same with symbols := same.symbols.add pair address absent (lookup ▸ absent) }
  · rw [dif_neg absent, dif_neg (lookup ▸ absent)]
    exact pairing.raise pair fun _ => rfl

theorem addString_renamed (pairing : Pairing rename first second names strings)
    (same : placement.Renamed names strings other) {text textOther : Symbol}
    (pair : strings text textOther) :
    Corresponds (Renamed names strings) (Renames rename) (placement.addString first text)
      (other.addString second textOther) := by
  unfold addString
  rw [same.strings.contains pairing.uniqueStrings pair]
  by_cases placed : other.strings.contains textOther
  · rw [if_pos placed, if_pos placed]
    exact .ok same
  · obtain ⟨spelling, spelled, spelledOther⟩ := pairing.stringTexts text textOther pair
    rw [if_neg placed, if_neg placed, spelled.resolve, spelledOther.resolve]
    refine .ok { same with strings := ?_, rodata := by rw [same.rodata] }
    rw [rodataAddress, same.rodata]
    exact same.strings.defineFirst pairing.uniqueStrings pair _

theorem addOperand_renamed (pairing : Pairing rename first second names strings)
    (same : placement.Renamed names strings other) {operand operandOther : Source.Operand}
    (pair : Operand.Renamed names strings operand operandOther) :
    Corresponds (Renamed names strings) (Renames rename) (placement.addOperand first operand)
      (other.addOperand second operandOther) := by
  cases pair with
  | symbol => exact .ok same
  | string pair => exact addString_renamed pairing same pair
  | plain operand unnamed =>
      cases operand with
      | symbol | string => cases unnamed
      | register | integer | char | absent => exact .ok same

theorem addInstruction_renamed (pairing : Pairing rename first second names strings)
    (same : placement.Renamed names strings other) {operands others : Operands}
    (pair : Operands.Renamed names strings operands others) :
    Corresponds (Renamed names strings) (Renames rename)
      (placement.addInstruction first operands) (other.addInstruction second others) := by
  have both : List.Forall₂ (Operand.Renamed names strings) operands.toList others.toList :=
    .cons pair.first (.cons pair.second .nil)
  unfold addInstruction
  refine (Corresponds.foldlM both ?_ same).bind ?_
  · intro _ _ _ _ same pair
    exact addOperand_renamed pairing same pair
  · intro after afterOther same
    exact .ok { same with codeLength := by rw [same.codeLength] }

theorem valueBytes?_renamed (pairing : Pairing rename first second names strings)
    {operand operandOther : Source.Operand}
    (pair : Operand.Renamed names strings operand operandOther) :
    ∃ bytes, valueBytes? first operand = .ok bytes ∧
      valueBytes? second operandOther = .ok bytes := by
  cases pair with
  | symbol => exact ⟨_, rfl, rfl⟩
  | string pair =>
      obtain ⟨spelling, spelled, spelledOther⟩ := pairing.stringTexts _ _ pair
      unfold valueBytes?
      dsimp only
      rw [spelled.resolve, spelledOther.resolve]
      exact ⟨_, rfl, rfl⟩
  | plain operand unnamed =>
      cases operand with
      | symbol | string => cases unnamed
      | register | integer | char | absent => exact ⟨_, rfl, rfl⟩

theorem addValue_renamed (pairing : Pairing rename first second names strings)
    (same : placement.Renamed names strings other) {operands others : Operands}
    (pair : Operands.Renamed names strings operands others) (line : Nat) (directive : Directive)
    (readOnly : Bool) :
    Corresponds (Renamed names strings) (Renames rename)
      (placement.addValue first line directive readOnly operands)
      (other.addValue second line directive readOnly others) := by
  obtain ⟨bytes, value, valueOther⟩ := valueBytes?_renamed pairing pair.second
  obtain ⟨operand, back⟩ := operands
  obtain ⟨operandOther, backOther⟩ := others
  have front : Operand.Renamed names strings operand operandOther := pair.first
  unfold addValue
  cases front with
  | string => exact .error rfl
  | plain operand unnamed =>
      cases operand with
      | symbol | string => cases unnamed
      | register | integer | char | absent => exact .error rfl
  | symbol name =>
      dsimp only at value valueOther ⊢
      rw [value, valueOther]
      cases bytes with
      | none => exact .error rfl
      | some bytes =>
          cases readOnly with
          | true =>
              have address : placement.rodataAddress = other.rodataAddress := by
                rw [rodataAddress, same.rodata, rodataAddress]
              have extended : Renamed names strings
                  { placement with rodata := placement.rodata.appendList bytes }
                  { other with rodata := other.rodata.appendList bytes } :=
                { same with rodata := by rw [same.rodata] }
              change Corresponds _ _ (define first line _ placement.rodataAddress _) _
              rw [address]
              exact define_renamed pairing extended name line _
          | false =>
              have address : placement.dataAddress = other.dataAddress := by
                rw [dataAddress, same.data, dataAddress]
              have extended : Renamed names strings
                  { placement with data := placement.data.appendList bytes }
                  { other with data := other.data.appendList bytes } :=
                { same with data := by rw [same.data] }
              change Corresponds _ _ (define first line _ placement.dataAddress _) _
              rw [address]
              exact define_renamed pairing extended name line _

theorem addDirective_renamed (pairing : Pairing rename first second names strings)
    (same : placement.Renamed names strings other) {operands others : Operands}
    (pair : Operands.Renamed names strings operands others) (line : Nat) (directive : Directive) :
    Corresponds (Renamed names strings) (Renames rename)
      (placement.addDirective first line directive operands)
      (other.addDirective second line directive others) := by
  cases directive with
  | data => exact addValue_renamed pairing same pair line .data false
  | rodata => exact addValue_renamed pairing same pair line .rodata true
  | unknown => exact .error rfl
  | start =>
      have front := pair.first
      unfold addDirective
      dsimp only
      generalize operands.first = operand, others.first = operandOther at front
      cases front with
      | string => exact .error rfl
      | plain operand unnamed =>
          cases operand with
          | symbol | string => cases unnamed
          | register | integer | char | absent => exact .error rfl
      | symbol name =>
          have entry := same.entry
          generalize placement.entry = given, other.entry = givenOther at entry
          cases entry with
          | some => exact .error rfl
          | none => exact .ok { same with entry := .some ⟨name, rfl⟩ }
  | global =>
      have front := pair.first
      unfold addDirective
      dsimp only
      generalize operands.first = operand, others.first = operandOther at front
      cases front with
      | string => exact .error rfl
      | plain operand unnamed =>
          cases operand with
          | symbol | string => cases unnamed
          | register | integer | char | absent => exact .error rfl
      | symbol name =>
          exact .ok { same with
            globals := same.globals.defineFirst pairing.uniqueNames name line }

/-- A line keeps two placements in step. -/
theorem addLine_renamed (pairing : Pairing rename first second names strings)
    (same : placement.Renamed names strings other) {line lineOther : NumberedLine}
    (pair : NumberedLine.Renamed names strings line lineOther) :
    Corresponds (Renamed names strings) (Renames rename) (placement.addLine first line)
      (other.addLine second lineOther) := by
  obtain ⟨number, content⟩ := line
  obtain ⟨numberOther, contentOther⟩ := lineOther
  obtain ⟨rfl, pair⟩ := pair
  unfold addLine
  dsimp only at pair ⊢
  cases pair with
  | label name =>
      have address : placement.codeAddress = other.codeAddress := by
        rw [codeAddress, same.codeLength, codeAddress]
      dsimp only
      rw [address]
      exact define_renamed pairing same name _ _
  | instruction pair => exact addInstruction_renamed pairing same pair
  | directive pair => exact addDirective_renamed pairing same pair _ _

theorem checkCapacity_renamed (same : placement.Renamed names strings other) :
    placement.checkCapacity = other.checkCapacity := by
  rw [checkCapacity, checkCapacity, sectionSizes, sectionSizes, same.codeLength, same.rodata,
    same.data]

theorem checkGlobals_renamed (pairing : Pairing rename first second names strings)
    (same : placement.Renamed names strings other) :
    Corresponds Eq (Renames rename) (placement.checkGlobals first)
      (other.checkGlobals second) := by
  have found : Option.Rel
      (fun entry entryOther => names entry.1 entryOther.1 ∧ entry.2 = entryOther.2)
      (placement.globals.toList.find? fun entry => !placement.symbols.contains entry.1)
      (other.globals.toList.find? fun entry => !other.symbols.contains entry.1) := by
    have globals := same.globals
    unfold SymbolTable.Renamed at globals
    generalize placement.globals.toList = entries, other.globals.toList = others at globals
    induction globals with
    | nil => exact .none
    | cons entry _ inductionHypothesis =>
        rw [List.find?_cons, List.find?_cons,
          same.symbols.contains pairing.uniqueNames entry.1]
        split
        · exact .some entry
        · exact inductionHypothesis
  unfold checkGlobals
  generalize placement.globals.toList.find? _ = given, other.globals.toList.find? _ = givenOther
    at found
  cases found with
  | none => exact .ok rfl
  | @some entry entryOther pair =>
      obtain ⟨name, line⟩ := entry
      obtain ⟨nameOther, lineOther⟩ := entryOther
      obtain ⟨pair, rfl⟩ := pair
      exact pairing.raise pair fun _ => rfl

theorem entryPoint_renamed (pairing : Pairing rename first second names strings)
    (same : placement.Renamed names strings other) :
    Corresponds Eq (Renames rename) (placement.entryPoint first) (other.entryPoint second) := by
  have entry := same.entry
  unfold entryPoint
  generalize placement.entry = given, other.entry = givenOther at entry
  cases entry with
  | none => exact .ok rfl
  | @some entry entryOther pair =>
      obtain ⟨target, line⟩ := entry
      obtain ⟨targetOther, lineOther⟩ := entryOther
      obtain ⟨pair, rfl⟩ := pair
      dsimp only at pair ⊢
      rw [same.symbols.lookup pairing.uniqueNames pair, same.codeLength]
      split
      · exact pairing.raise pair fun _ => rfl
      · split
        · exact .ok rfl
        · exact pairing.raise pair fun _ => rfl

end Placement

namespace Layout

variable {program other : Program} {layout moved : Layout}

/-- Layouts that give partners the same addresses. -/
structure Renamed (names strings : Symbol → Symbol → Prop) (layout moved : Layout) : Prop where
  placement : layout.toPlacement.Renamed names strings moved.toPlacement
  entryPoint : layout.entryPoint = moved.entryPoint

/-- Programs that differ only in their symbols have layouts alike. -/
theorem ofProgram_renamed (pairing : Pairing rename first second names strings)
    (same : List.Forall₂ (NumberedLine.Renamed names strings) program.toList other.toList) :
    Corresponds (Renamed names strings) (Renames rename) (ofProgram first program)
      (ofProgram second other) := by
  have placed : Corresponds (Placement.Renamed names strings) (Renames rename)
      (program.toList.foldlM (Placement.addLine first) .empty)
      (other.toList.foldlM (Placement.addLine second) .empty) :=
    .foldlM same (fun _ _ _ _ same pair => Placement.addLine_renamed pairing same pair)
      Placement.empty_renamed
  unfold ofProgram
  refine placed.bind fun placement moved same => ?_
  rw [Placement.checkCapacity_renamed same]
  have capacity : Corresponds Eq (Renames rename) (moved.checkCapacity.mapError Abort.raised)
      (moved.checkCapacity.mapError Abort.raised) := by
    unfold Placement.checkCapacity
    split
    · exact .error rfl
    · exact .ok rfl
  refine capacity.bind fun _ _ _ => ?_
  refine (Placement.checkGlobals_renamed pairing same).bind fun _ _ _ => ?_
  refine (Placement.entryPoint_renamed pairing same).bind fun _ _ entry => ?_
  exact .ok ⟨same, entry⟩

theorem isGlobal_renamed (pairing : Pairing rename first second names strings)
    (same : layout.Renamed names strings moved) {name nameOther : Symbol}
    (pair : names name nameOther) : layout.isGlobal name = moved.isGlobal nameOther :=
  same.placement.globals.contains pairing.uniqueNames pair

theorem operand_renamed (pairing : Pairing rename first second names strings)
    (same : layout.Renamed names strings moved) {operand operandOther : Source.Operand}
    (pair : Operand.Renamed names strings operand operandOther)
    (placed : ∀ text, operand = .string text → (layout.strings.lookup text).isSome) (line : Nat)
    (takesAddress : Bool) :
    Corresponds Eq (Renames rename) (layout.operand first line takesAddress operand)
      (moved.operand second line takesAddress operandOther) := by
  cases pair with
  | symbol pair =>
      unfold operand
      dsimp only
      rw [same.placement.symbols.lookup pairing.uniqueNames pair,
        isGlobal_renamed pairing same pair]
      split
      · exact .ok rfl
      · exact pairing.raise pair fun _ => rfl
  | string pair =>
      obtain ⟨address, copied⟩ := Option.isSome_iff_exists.mp (placed _ rfl)
      unfold operand
      dsimp only
      rw [← same.placement.strings.lookup pairing.uniqueStrings pair, copied]
      exact .ok rfl
  | plain operand unnamed =>
      cases operand with
      | symbol | string => cases unnamed
      | register | integer | char | absent => exact .ok rfl

theorem encodeInstruction_renamed (pairing : Pairing rename first second names strings)
    (same : layout.Renamed names strings moved) {opcode : Opcode} {operands others : Operands}
    (pair : Operands.Renamed names strings operands others)
    (placed : ∀ text ∈ (Line.instruction ⟨opcode, operands⟩).literals,
      (layout.strings.lookup text).isSome) (line : Nat) :
    Corresponds Eq (Renames rename)
      (layout.encodeInstruction first line ⟨opcode, operands⟩)
      (moved.encodeInstruction second line ⟨opcode, others⟩) := by
  have each : ∀ operand ∈ operands.toList, ∀ text, operand = .string text →
      (layout.strings.lookup text).isSome := by
    intro operand member text isText
    exact placed text (List.mem_filterMap.mpr ⟨operand, member, by rw [isText]; rfl⟩)
  have located : Corresponds Eq (Renames rename) (layout.instruction first line ⟨opcode, operands⟩)
      (moved.instruction second line ⟨opcode, others⟩) := by
    unfold instruction
    refine (operand_renamed pairing same pair.first (each _ (by simp [Operands.toList])) _ _).bind
      ?_
    rintro dest _ rfl
    refine (operand_renamed pairing same pair.second (each _ (by simp [Operands.toList])) _ _).bind
      ?_
    rintro src _ rfl
    exact .ok rfl
  refine located.bind ?_
  rintro located _ rfl
  cases located.encode with
  | error reason => exact .error rfl
  | ok bytes => exact .ok rfl

end Layout

end Placing

end RegisterMachine
