/-
This file proves that the line by line placement gives every name the address that the lines of the
program say. Each line keeps the agreement, so the whole program has it.
-/

import RegisterMachine.Proofs.Layout.Address

namespace RegisterMachine

open Source

namespace SymbolTable

variable {α : Type}

theorem lookup_add (table : SymbolTable α) (name other : Symbol) (value : α)
    (absent : table.lookup name = none) :
    (table.add name value absent).lookup other =
      (table.lookup other).or (if name = other then some value else none) := by
  rw [lookupToList, addToList, lookupPush, ← lookupToList]

theorem lookup_empty (name : Symbol) : (empty : SymbolTable α).lookup name = none := by
  rw [lookupToList]
  rfl

end SymbolTable

namespace Source

theorem offset?_isSome {α : Type} (size : α → Nat) (wanted : α → Bool) (items : List α) :
    (offset? size wanted items).isSome = items.any wanted := by
  induction items with
  | nil => rfl
  | cons item rest inductionHypothesis =>
      rw [offset?, List.any_cons, ← inductionHypothesis]
      by_cases first : wanted item
      · simp [first]
      · simp [first]

namespace Constant

/-- A string operand is placed exactly if it has an address. -/
theorem address?_isSome (interner : Interner) (wanted : Constant → Bool)
    (placed : List Constant) : (address? interner wanted placed).isSome = placed.any wanted := by
  rw [address?, Option.isSome_map, offset?_isSome]

/-- String operands have no names. -/
theorem address?_place_literals (interner : Interner) (name : Symbol)
    (operands : List Operand) (placed : List Constant) :
    address? interner (isNamed name) ((operands.filterMap Operand.literal?).foldl place placed) =
      address? interner (isNamed name) placed := by
  induction operands generalizing placed with
  | nil => rfl
  | cons operand rest inductionHypothesis =>
      cases operand with
      | string text =>
          rw [List.filterMap_cons_some (by rfl : Operand.literal? (.string text) = _),
            List.foldl_cons, inductionHypothesis, place]
          split
          · rfl
          · rw [address?_append]
            simp [isNamed]
      | register | integer | char | symbol | absent =>
          rw [List.filterMap_cons_none (by rfl)]
          exact inductionHypothesis placed

end Constant

end Source

namespace Placement

/-- The read-only data holds the constants that were placed, and each string operand among them has
its address. -/
structure HoldsConstants (interner : Interner) (placed : List Constant) (placement : Placement) :
    Prop where
  rodata : placement.rodata.toList = placed.flatMap (Constant.bytes interner)
  strings : ∀ text, placement.strings.lookup text =
    Constant.address? interner (Constant.isLiteral text) placed

/-- What the placement knows after some lines is what the lines say. -/
structure Agrees (interner : Interner) (lines : List Line) (placement : Placement) : Prop where
  codeLength : placement.codeLength = codeSize lines
  data : placement.data.toList = lines.flatMap (Line.dataBytes interner)
  constants : HoldsConstants interner (Source.constants lines) placement
  symbols : ∀ name, placement.symbols.lookup name = symbolAddress? interner lines name

theorem empty_agrees (interner : Interner) : Agrees interner [] empty where
  codeLength := rfl
  data := rfl
  constants := ⟨rfl, fun text => SymbolTable.lookup_empty text⟩
  symbols name := SymbolTable.lookup_empty name

theorem define_ok {interner : Interner} {line : Nat} {name : Symbol} {address : UInt32}
    {placement after : Placement}
    (defined : placement.define interner line name address = .ok after) :
    ∃ absent : placement.symbols.lookup name = none,
      after = { placement with symbols := placement.symbols.add name address absent } := by
  unfold define at defined
  by_cases absent : placement.symbols.lookup name = none
  · rw [SymbolTable.define?, dif_pos absent] at defined
    exact ⟨absent, (Except.ok.inj defined).symm⟩
  · rw [SymbolTable.define?, dif_neg absent] at defined
    obtain ⟨text, _, thrown⟩ := bindOk defined
    cases thrown

theorem rodataAddress_eq {interner : Interner} {placed : List Constant} {placement : Placement}
    (holds : HoldsConstants interner placed placement) :
    placement.rodataAddress =
      Segment.rodata.base +
        UInt32.ofNat (placed.flatMap (Constant.bytes interner)).length := by
  rw [rodataAddress, ← holds.rodata, Array.length_toList]

theorem addString_holds {interner : Interner} {placed : List Constant} {text : Symbol}
    {placement after : Placement} (holds : HoldsConstants interner placed placement)
    (added : placement.addString interner text = .ok after) :
    HoldsConstants interner (Constant.place placed (.literal text)) after ∧
      ∃ rodata strings, after = { placement with rodata, strings } := by
  have known : placement.strings.contains text = placed.any (Constant.isLiteral text) := by
    rw [SymbolTable.contains, holds.strings, Constant.address?_isSome]
  unfold addString at added
  rw [known] at added
  by_cases present : placed.any (Constant.isLiteral text)
  · rw [if_pos present] at added
    cases added
    rw [Constant.place, if_pos present]
    exact ⟨holds, placement.rodata, placement.strings, rfl⟩
  · rw [if_neg present] at added
    obtain ⟨resolved, found, returned⟩ := bindOk added
    have bytes : (Constant.literal text).bytes interner = stringBytes resolved := by
      simp only [Constant.bytes, Constant.value, Operand.bytes, valueBytes?, mapErrorOk found,
        okBind, pureOk]
    have absent : placement.strings.lookup text = none := by
      have missing : placement.strings.contains text = false := by
        rw [known]
        simpa using present
      rw [SymbolTable.contains] at missing
      exact Option.isNone_iff_eq_none.mp (by simpa using missing)
    rw [← Except.ok.inj returned, Constant.place, if_neg present]
    refine ⟨⟨?_, ?_⟩, _, _, rfl⟩
    · simp only [Array.appendList_eq_append, Array.toList_appendList, List.flatMap_append,
        List.flatMap_singleton, holds.rodata, bytes]
    · intro other
      rw [SymbolTable.defineFirst, dif_pos absent, SymbolTable.lookup_add, holds.strings,
        Constant.address?_append, rodataAddress_eq holds, Constant.isLiteral]
      by_cases same : text = other
      · simp [same]
      · have different : other ≠ text := Ne.symm same
        simp [same, different]

/-- The operands of an instruction change the read-only data and its string operands only. -/
theorem addOperands_holds {interner : Interner} {operands : List Source.Operand}
    {placed : List Constant} {placement after : Placement}
    (holds : HoldsConstants interner placed placement)
    (added : operands.foldlM (addOperand interner) placement = .ok after) :
    HoldsConstants interner
        ((operands.filterMap Operand.literal?).foldl Constant.place placed) after ∧
      ∃ rodata strings, after = { placement with rodata, strings } := by
  induction operands generalizing placed placement with
  | nil =>
      rw [← Except.ok.inj added]
      exact ⟨holds, placement.rodata, placement.strings, rfl⟩
  | cons operand rest inductionHypothesis =>
      rw [List.foldlM_cons] at added
      obtain ⟨next, first, others⟩ := bindOk added
      cases operand with
      | string text =>
          obtain ⟨nextHolds, rodata, strings, same⟩ := addString_holds holds first
          obtain ⟨afterHolds, rodata', strings', same'⟩ := inductionHypothesis nextHolds others
          refine ⟨afterHolds, rodata', strings', ?_⟩
          rw [same', same]
      | register | integer | char | symbol | absent =>
          rw [← Except.ok.inj first] at others
          exact inductionHypothesis holds others

theorem addInstruction_agrees {interner : Interner} {lines : List Line}
    {content : Source.Instruction} {placement after : Placement}
    (agrees : Agrees interner lines placement)
    (added : placement.addInstruction interner content.operands = .ok after) :
    Agrees interner (lines ++ [.instruction content]) after := by
  obtain ⟨next, operands, returned⟩ := bindOk added
  obtain ⟨holds, rodata, strings, same⟩ := addOperands_holds agrees.constants operands
  rw [← Except.ok.inj returned]
  subst same
  exact {
    codeLength := by
      rw [codeSize_append, ← agrees.codeLength]
      rfl
    data := by
      rw [List.flatMap_append, ← agrees.data]
      simp [Line.dataBytes]
    constants := by
      rw [constants_append]
      exact ⟨holds.rodata, holds.strings⟩
    symbols := by
      intro name
      rw [agrees.symbols, symbolAddress?, symbolAddress?, labelAddress?_append,
        dataAddress?_append, constantAddress?, constantAddress?, constants_append, Line.constants,
        Constant.address?_place_literals]
      simp [Line.isLabel, Line.isDatum] }

/-- A line without code that defines a name is agreed on once its bytes are, if its name is the only
one that it gives an address. -/
theorem define_agrees {interner : Interner} {lines : List Line} {line : Line} {number : Nat}
    {name : Symbol} {address : UInt32} {placement extended after : Placement}
    (agrees : Agrees interner lines placement)
    (defined : extended.define interner number name address = .ok after)
    (symbols : extended.symbols = placement.symbols)
    (codeLength : extended.codeLength = placement.codeLength) (noCode : line.codeSize = 0)
    (data : extended.data.toList = placement.data.toList ++ line.dataBytes interner)
    (constants : HoldsConstants interner (Source.constants (lines ++ [line])) extended)
    (own : symbolAddress? interner lines name = none →
      symbolAddress? interner (lines ++ [line]) name = some address)
    (others : ∀ other, name ≠ other →
      symbolAddress? interner (lines ++ [line]) other = symbolAddress? interner lines other) :
    Agrees interner (lines ++ [line]) after := by
  obtain ⟨absent, same⟩ := define_ok defined
  have known (other : Symbol) :
      extended.symbols.lookup other = symbolAddress? interner lines other := by
    rw [symbols]
    exact agrees.symbols other
  rw [same]
  refine ⟨?_, ?_, ⟨constants.rodata, constants.strings⟩, ?_⟩
  · rw [codeSize_append, noCode, ← agrees.codeLength]
    exact codeLength
  · rw [List.flatMap_append, List.flatMap_singleton, ← agrees.data]
    exact data
  · intro other
    rw [SymbolTable.lookup_add, known]
    by_cases equal : name = other
    · subst equal
      rw [known] at absent
      rw [if_pos rfl, own absent, absent]
      rfl
    · rw [if_neg equal, others other equal, Option.or_none]

theorem addLabel_agrees {interner : Interner} {lines : List Line} {line : Nat} {name : Symbol}
    {placement after : Placement} (agrees : Agrees interner lines placement)
    (added : placement.define interner line name placement.codeAddress = .ok after) :
    Agrees interner (lines ++ [.label name]) after := by
  have extended (other : Symbol) :
      symbolAddress? interner (lines ++ [.label name]) other =
        ((labelAddress? lines other).or
          (if name = other then some placement.codeAddress else none)).or
          ((dataAddress? interner lines other).or (constantAddress? interner lines other)) := by
    rw [symbolAddress?, labelAddress?_append, dataAddress?_append, constantAddress?,
      constantAddress?, constants_append, codeAddress, agrees.codeLength]
    by_cases equal : name = other
    · simp [Line.isLabel, Line.isDatum, Line.constants, equal]
    · simp [Line.isLabel, Line.isDatum, Line.constants, equal, Ne.symm equal]
  apply define_agrees agrees added rfl rfl rfl
  · simp [Line.dataBytes]
  · rw [constants_append]
    exact agrees.constants
  · intro new
    rw [symbolAddress?, Option.or_eq_none_iff] at new
    rw [extended, new.1, if_pos rfl]
    rfl
  · intro other different
    rw [extended, if_neg different, Option.or_none]
    rfl

/-- A named value that was added has a name, some bytes, and the address of its section's end. -/
theorem addValue_ok {interner : Interner} {line : Nat} {directive : Directive} {readOnly : Bool}
    {operands : Operands} {placement after : Placement}
    (added : placement.addValue interner line directive readOnly operands = .ok after) :
    ∃ name, operands.first = .symbol name ∧
      if readOnly then
        define interner line name placement.rodataAddress
          { placement with
            rodata := placement.rodata.appendList (operands.second.bytes interner) } = .ok after
      else
        define interner line name placement.dataAddress
          { placement with
            data := placement.data.appendList (operands.second.bytes interner) } = .ok after := by
  unfold addValue at added
  split at added
  · rename_i name first
    obtain ⟨value, found, added⟩ := bindOk added
    cases value with
    | none => cases added
    | some bytes =>
        have same : operands.second.bytes interner = bytes := by
          simp only [Operand.bytes, mapErrorOk found]
        rw [same]
        refine ⟨name, first, ?_⟩
        cases readOnly <;> exact added
  · cases added

theorem addDatum_agrees {interner : Interner} {lines : List Line} {line : Nat}
    {operands : Operands} {placement after : Placement}
    (agrees : Agrees interner lines placement)
    (added : placement.addValue interner line .data false operands = .ok after) :
    Agrees interner (lines ++ [.directive .data operands]) after := by
  obtain ⟨name, first, defined⟩ := addValue_ok added
  have extended (other : Symbol) :
      symbolAddress? interner (lines ++ [.directive .data operands]) other =
        (labelAddress? lines other).or
          (((dataAddress? interner lines other).or
            (if name = other then some placement.dataAddress else none)).or
            (constantAddress? interner lines other)) := by
    rw [symbolAddress?, labelAddress?_append, dataAddress?_append, constantAddress?,
      constantAddress?, constants_append, dataAddress, ← agrees.data, Array.length_toList]
    by_cases equal : name = other
    · simp [Line.isLabel, Line.isDatum, Line.constants, first, equal]
    · simp [Line.isLabel, Line.isDatum, Line.constants, first, equal]
  apply define_agrees agrees defined rfl rfl rfl
  · simp [Line.dataBytes]
  · rw [constants_append]
    exact ⟨agrees.constants.rodata, agrees.constants.strings⟩
  · intro new
    rw [symbolAddress?, Option.or_eq_none_iff, Option.or_eq_none_iff] at new
    rw [extended, new.1, new.2.1, if_pos rfl]
    rfl
  · intro other different
    rw [extended, if_neg different, Option.or_none]
    rfl

theorem addConstant_agrees {interner : Interner} {lines : List Line} {line : Nat}
    {operands : Operands} {placement after : Placement}
    (agrees : Agrees interner lines placement)
    (added : placement.addValue interner line .rodata true operands = .ok after) :
    Agrees interner (lines ++ [.directive .rodata operands]) after := by
  obtain ⟨name, first, defined⟩ := addValue_ok added
  obtain ⟨_, value⟩ := operands
  subst first
  have placed : constants (lines ++ [.directive .rodata ⟨.symbol name, value⟩]) =
      constants lines ++ [.named name value] := by
    rw [constants_append]
    rfl
  have extended (other : Symbol) :
      symbolAddress? interner (lines ++ [.directive .rodata ⟨.symbol name, value⟩]) other =
        (labelAddress? lines other).or
          ((dataAddress? interner lines other).or
            ((constantAddress? interner lines other).or
              (if name = other then some placement.rodataAddress else none))) := by
    rw [symbolAddress?, labelAddress?_append, dataAddress?_append, constantAddress?,
      constantAddress?, placed, Constant.address?_append, rodataAddress_eq agrees.constants]
    by_cases equal : name = other
    · simp [Line.isLabel, Line.isDatum, Constant.isNamed, equal]
    · simp [Line.isLabel, Line.isDatum, Constant.isNamed, equal, Ne.symm equal]
  apply define_agrees agrees defined rfl rfl rfl
  · simp [Line.dataBytes]
  · rw [placed]
    constructor
    · simp [agrees.constants.rodata, Constant.bytes, Constant.value]
    · intro text
      rw [Constant.address?_append, ← agrees.constants.strings]
      simp [Constant.isLiteral]
  · intro new
    rw [symbolAddress?, Option.or_eq_none_iff, Option.or_eq_none_iff] at new
    rw [extended, new.1, new.2.1, new.2.2, if_pos rfl]
    rfl
  · intro other different
    rw [extended, if_neg different, Option.or_none]
    rfl

/-- A line that places nothing changes nothing that is said of the lines before it. -/
theorem addNothing_agrees {interner : Interner} {lines : List Line} {line : Line}
    {placement : Placement} (agrees : Agrees interner lines placement)
    (noCode : line.codeSize = 0) (noLabel : ∀ name, line.isLabel name = false)
    (noData : line.dataBytes interner = []) (noDatum : ∀ name, line.isDatum name = false)
    (noConstants : line.constants = []) : Agrees interner (lines ++ [line]) placement where
  codeLength := by
    rw [codeSize_append, noCode]
    exact agrees.codeLength
  data := by
    rw [List.flatMap_append, List.flatMap_singleton, noData, List.append_nil]
    exact agrees.data
  constants := by
    rw [constants_append, noConstants]
    exact agrees.constants
  symbols := by
    intro name
    rw [agrees.symbols, symbolAddress?, symbolAddress?, labelAddress?_append, dataAddress?_append,
      constantAddress?, constantAddress?, constants_append, noConstants, noLabel, noDatum]
    simp

/-- What is known does not depend on the entry point and the global names. -/
theorem Agrees.of_same {interner : Interner} {lines : List Line} {placement : Placement}
    (agrees : Agrees interner lines placement) (entry : Option (Symbol × Nat))
    (globals : SymbolTable Nat) :
    Agrees interner lines { placement with entry, globals } :=
  ⟨agrees.codeLength, agrees.data, ⟨agrees.constants.rodata, agrees.constants.strings⟩,
    agrees.symbols⟩

theorem addDirective_agrees {interner : Interner} {lines : List Line} {line : Nat}
    {directive : Directive} {operands : Operands} {placement after : Placement}
    (agrees : Agrees interner lines placement)
    (added : placement.addDirective interner line directive operands = .ok after) :
    Agrees interner (lines ++ [.directive directive operands]) after := by
  cases directive with
  | start =>
      unfold addDirective at added
      dsimp only at added
      split at added
      · split at added
        · cases added
        · rw [← Except.ok.inj added]
          exact addNothing_agrees (agrees.of_same _ _) rfl (fun _ => rfl) rfl (fun _ => rfl) rfl
      · cases added
  | global =>
      unfold addDirective at added
      dsimp only at added
      split at added
      · rw [← Except.ok.inj added]
        exact addNothing_agrees (agrees.of_same _ _) rfl (fun _ => rfl) rfl (fun _ => rfl) rfl
      · cases added
  | data => exact addDatum_agrees agrees added
  | rodata => exact addConstant_agrees agrees added
  | unknown => cases added

theorem addLine_agrees {interner : Interner} {lines : List Line} {line : NumberedLine}
    {placement after : Placement} (agrees : Agrees interner lines placement)
    (added : placement.addLine interner line = .ok after) :
    Agrees interner (lines ++ [line.content]) after := by
  unfold addLine at added
  cases content : line.content with
  | label name =>
      rw [content] at added
      exact addLabel_agrees agrees added
  | instruction instruction =>
      rw [content] at added
      exact addInstruction_agrees agrees added
  | directive directive operands =>
      rw [content] at added
      exact addDirective_agrees agrees added

/-- Line by line, the placement agrees with the lines. -/
theorem addLines_agrees {interner : Interner} {lines : List Line} {rest : List NumberedLine}
    {placement after : Placement} (agrees : Agrees interner lines placement)
    (added : rest.foldlM (addLine interner) placement = .ok after) :
    Agrees interner (lines ++ rest.map NumberedLine.content) after := by
  induction rest generalizing lines placement with
  | nil =>
      rw [← Except.ok.inj added, List.map_nil, List.append_nil]
      exact agrees
  | cons line rest inductionHypothesis =>
      rw [List.foldlM_cons] at added
      obtain ⟨next, first, others⟩ := bindOk added
      have whole := inductionHypothesis (addLine_agrees agrees first) others
      rw [List.append_assoc] at whole
      exact whole

end Placement

end RegisterMachine
