/-
This file says which lines have a layout, and what the layout is, from the lines alone. Neither the
numbers of the lines nor the texts of their names count.
-/

import RegisterMachine.Proofs.Layout.Contents
import RegisterMachine.Proofs.Layout.Values

namespace RegisterMachine

open Source

namespace Source

namespace Line

/-- The name that a line gives to a directive. -/
def given? (directive : Directive) : Line → Option Symbol
  | .directive given operands => if given = directive then operands.first.name? else none
  | .label _ | .instruction _ => none

theorem given?_eq_some {directive : Directive} {line : Line} {name : Symbol} :
    line.given? directive = some name ↔
      ∃ operands, line = .directive directive operands ∧ operands.first = .symbol name := by
  cases line with
  | label | instruction => simp [given?]
  | directive given operands =>
      by_cases same : given = directive
      · simp [given?, same, Operand.name?_eq_some]
      · simp [given?, same]

/-- The strings that a line puts into a section. -/
def texts : Line → List Symbol
  | .instruction content => content.operands.toList.filterMap Operand.text?
  | .directive .data operands | .directive .rodata operands => operands.second.text?.toList
  | .label _ | .directive .start _ | .directive .global _ | .directive .unknown _ => []

end Line

/-- The address of the start, or the beginning of the code if no line gives one. -/
def entryAddress (interner : Interner) (lines : List Line) : UInt32 :=
  ((lines.filterMap (Line.given? .start)).head?.bind (symbolAddress? interner lines)).getD 0

/-- What lines must be to have a layout. -/
structure Placeable (interner : Interner) (lines : List Line) : Prop where
  directed : ∀ line ∈ lines, line.isWellDirected
  oneStart : lines.countP Line.isStart ≤ 1
  distinct : (lines.filterMap Line.binds?).Nodup
  texts : ∀ line ∈ lines, ∀ text ∈ line.texts, ∃ resolved, interner.resolve text = .ok resolved
  codeFits : codeSize lines ≤ Segment.code.size.toNat
  rodataFits : ((constants lines).flatMap (Constant.bytes interner)).length ≤
    Segment.rodata.size.toNat
  dataFits : (lines.flatMap (Line.dataBytes interner)).length ≤ Segment.data.size.toNat
  globals : ∀ name ∈ lines.filterMap (Line.given? .global), name ∈ lines.filterMap Line.binds?
  entry : ∀ target ∈ lines.filterMap (Line.given? .start), ∃ address,
    symbolAddress? interner lines target = some address ∧ address.toNat < codeSize lines

theorem boundNames_contents (program : Program) :
    boundNames program.toList = program.contents.filterMap Line.binds? := by
  rw [boundNames, Program.contents, List.filterMap_map]
  rfl

theorem namedBy_contents (directive : Directive) (program : Program) :
    (namedBy directive program.toList).map Prod.fst =
      program.contents.filterMap (Line.given? directive) := by
  rw [namedBy, Program.contents, List.filterMap_map, List.map_filterMap]
  congr 1
  funext line
  change (line.namedBy? directive).map Prod.fst = line.content.given? directive
  unfold NumberedLine.namedBy? Line.given?
  cases line.content with
  | label | instruction => rfl
  | directive given operands =>
      dsimp only
      split
      · rw [Option.map_map]
        exact congrFun Option.map_id _
      · rfl

/-- The start that a line gives is the first, since there is at most one. -/
theorem given_start {lines : List Line} (oneStart : lines.countP Line.isStart ≤ 1) {target : Symbol}
    (starts : target ∈ lines.filterMap (Line.given? .start)) :
    (lines.filterMap (Line.given? .start)).head? = some target := by
  have few : (lines.filterMap (Line.given? .start)).length ≤ 1 := by
    rw [List.length_filterMap_eq_countP]
    apply Nat.le_trans _ oneStart
    apply List.countP_mono_left
    intro line _ given
    cases line with
    | label | instruction => cases given
    | directive directive operands =>
        by_cases same : directive = .start
        · rw [same, Line.isStart]
        · rw [Line.given?, if_neg same] at given
          cases given
  cases given : lines.filterMap (Line.given? .start) with
  | nil =>
      rw [given] at starts
      cases starts
  | cons first others =>
      rw [given, List.length_cons] at few
      have alone : others = [] := List.length_eq_zero_iff.mp (by omega)
      rw [given, alone, List.mem_singleton] at starts
      rw [starts, List.head?_cons]

theorem Placeable.clean {interner : Interner} {program : Program}
    (placeable : Placeable interner program.contents) : Clean program.toList := by
  rw [program.clean_iff, boundNames_contents]
  exact ⟨placeable.directed, placeable.oneStart, placeable.distinct⟩

end Source

namespace Placement

variable {interner : Interner} {before : List NumberedLine} {placement : Placement}

section Lines

theorem define_succeeds {extended : Placement} {name : Symbol} (line : Nat) (address : UInt32)
    (new : extended.symbols.lookup name = none) :
    ∃ after, extended.define interner line name address = .ok after := by
  refine ⟨{ extended with symbols := extended.symbols.add name address new }, ?_⟩
  simp only [define, SymbolTable.define?, new, dite_true]

theorem addString_succeeds (placement : Placement) {text : Symbol}
    (resolves : ∃ resolved, interner.resolve text = .ok resolved) :
    ∃ after, placement.addString interner text = .ok after := by
  obtain ⟨resolved, found⟩ := resolves
  unfold addString
  split
  · exact ⟨_, rfl⟩
  · rw [found]
    exact ⟨_, rfl⟩

theorem addOperands_succeeds (placement : Placement) {operands : List Source.Operand}
    (resolves : ∀ text ∈ operands.filterMap Operand.text?,
      ∃ resolved, interner.resolve text = .ok resolved) :
    ∃ after, operands.foldlM (addOperand interner) placement = .ok after := by
  induction operands generalizing placement with
  | nil => exact ⟨placement, rfl⟩
  | cons operand rest inductionHypothesis =>
      rw [List.foldlM_cons]
      cases operand with
      | string text =>
          rw [List.filterMap_cons_some (by rfl : Operand.text? (.string text) = some text),
            List.forall_mem_cons] at resolves
          obtain ⟨next, added⟩ := addString_succeeds placement resolves.1
          rw [addOperand, added]
          exact inductionHypothesis next resolves.2
      | register | integer | char | symbol | absent =>
          exact inductionHypothesis placement resolves

/-- A named value is placed if it has bytes and its name is new. -/
theorem addValue_succeeds {line : Nat} {directive : Directive} {readOnly : Bool}
    {operands : Operands} {name : Symbol} (named : operands.first = .symbol name)
    (new : placement.symbols.lookup name = none) (value : operands.second.isValue)
    (resolves : ∀ text ∈ operands.second.text?.toList,
      ∃ resolved, interner.resolve text = .ok resolved) :
    ∃ after, placement.addValue interner line directive readOnly operands = .ok after := by
  have valued : ∃ bytes, valueBytes? interner operands.second = .ok (some bytes) := by
    cases second : operands.second with
    | integer | char => exact ⟨_, rfl⟩
    | string text =>
        rw [second] at resolves
        obtain ⟨resolved, found⟩ := resolves text (List.mem_singleton_self text)
        exact ⟨stringBytes resolved, by rw [valueBytes?, found]; rfl⟩
    | register | symbol | absent =>
        rw [second] at value
        cases value
  obtain ⟨bytes, found⟩ := valued
  unfold addValue
  rw [named]
  dsimp only
  rw [found, Abort.liftOk, okBind]
  cases readOnly with
  | true => exact define_succeeds line _ new
  | false => exact define_succeeds line _ new

/-- A clean line is placed if its strings have texts. -/
theorem addLine_succeeds {line : NumberedLine} (records : Records interner before placement)
    (clean : Clean (before ++ [line]))
    (resolves : ∀ text ∈ line.content.texts, ∃ resolved, interner.resolve text = .ok resolved) :
    ∃ after, placement.addLine interner line = .ok after := by
  rw [clean_append_singleton interner, NumberedLine.misdirected?_eq_none,
    NumberedLine.duplicate?_eq_none] at clean
  obtain ⟨_, ⟨directed, first⟩, new⟩ := clean
  have unbound (name : Symbol) (binds : line.content.binds? = some name) :
      placement.symbols.lookup name = none := by
    have contains := records.contains name
    rw [SymbolTable.contains, decide_eq_false (new name binds)] at contains
    simpa using contains
  unfold addLine
  cases content : line.content with
  | label name =>
      rw [content] at unbound
      exact define_succeeds line.number _ (unbound name rfl)
  | instruction instruction =>
      rw [content] at resolves
      obtain ⟨after, added⟩ := addOperands_succeeds placement resolves
      dsimp only
      rw [addInstruction, added]
      exact ⟨_, rfl⟩
  | directive directive operands =>
      rw [content] at directed first unbound resolves
      cases directive with
      | start =>
          obtain ⟨target, named⟩ := Option.isSome_iff_exists.mp directed
          have unset : ¬placement.entry.isSome = true := by
            rw [records.started, first rfl]
            exact Bool.false_ne_true
          simp only [addDirective, Operand.name?_eq_some.mp named, if_neg unset]
          exact ⟨_, rfl⟩
      | global =>
          obtain ⟨name, named⟩ := Option.isSome_iff_exists.mp directed
          simp only [addDirective, Operand.name?_eq_some.mp named]
          exact ⟨_, rfl⟩
      | data | rodata =>
          obtain ⟨isNamed, value⟩ := Bool.and_eq_true_iff.mp directed
          obtain ⟨name, named⟩ := Option.isSome_iff_exists.mp isNamed
          exact addValue_succeeds (Operand.name?_eq_some.mp named) (unbound name named) value
            resolves
      | unknown => cases directed

theorem addLines_succeeds {rest : List NumberedLine} (records : Records interner before placement)
    (clean : Clean (before ++ rest))
    (resolves : ∀ line ∈ rest, ∀ text ∈ line.content.texts,
      ∃ resolved, interner.resolve text = .ok resolved) :
    ∃ after, rest.foldlM (addLine interner) placement = .ok after := by
  induction rest generalizing before placement with
  | nil => exact ⟨placement, rfl⟩
  | cons line rest inductionHypothesis =>
      rw [List.append_cons] at clean
      rw [List.forall_mem_cons] at resolves
      obtain ⟨next, added⟩ := addLine_succeeds records clean.of_append resolves.1
      rw [List.foldlM_cons, added]
      exact inductionHypothesis (addLine_records records added) clean resolves.2

end Lines

section Checks

variable {program : Program}

theorem checkCapacity_succeeds (codeFits : placement.codeLength ≤ Segment.code.size.toNat)
    (rodataFits : placement.rodata.size ≤ Segment.rodata.size.toNat)
    (dataFits : placement.data.size ≤ Segment.data.size.toNat) :
    placement.checkCapacity = .ok () := by
  have clear : placement.sectionSizes.find? (fun entry => entry.1.size.toNat < entry.2) = none := by
    simp [sectionSizes, codeFits, rodataFits, dataFits]
  simp only [checkCapacity, clear]

theorem checkGlobals_ok_iff (records : Records interner program.toList placement) :
    placement.checkGlobals interner = .ok () ↔
      ∀ name ∈ program.contents.filterMap (Line.given? .global),
        name ∈ program.contents.filterMap Line.binds? := by
  have search := records.globals fun name => !placement.symbols.contains name
  have clear : placement.globals.toList.find? (fun entry => !placement.symbols.contains entry.1) =
      none ↔ ∀ name ∈ program.contents.filterMap (Line.given? .global),
        name ∈ program.contents.filterMap Line.binds? := by
    rw [search, List.find?_eq_none, ← namedBy_contents, ← boundNames_contents,
      List.forall_mem_map]
    simp [records.contains]
  rw [← clear]
  unfold checkGlobals
  split
  · rename_i name line found
    rw [found]
    refine iff_of_false ?_ nofun
    intro checked
    obtain ⟨_, _, thrown⟩ := bindOk checked
    cases thrown
  · rename_i none
    exact iff_of_true rfl none

/-- The name that the entry point has, if a line gives one. -/
theorem Records.start (records : Records interner program.toList placement) :
    placement.entry.map Prod.fst = (program.contents.filterMap (Line.given? .start)).head? := by
  rw [records.entry, ← namedBy_contents, List.head?_map]

theorem entryPoint_succeeds (records : Records interner program.toList placement)
    (fits : codeSize program.contents ≤ Segment.code.size.toNat)
    (starts : ∀ target ∈ program.contents.filterMap (Line.given? .start), ∃ address,
      symbolAddress? interner program.contents target = some address ∧
        address.toNat < codeSize program.contents) :
    ∃ offset, placement.entryPoint interner = .ok offset := by
  have agrees : Agrees interner program.contents placement := records.agrees
  have start := records.start
  unfold entryPoint
  cases given : placement.entry with
  | none => exact ⟨0, rfl⟩
  | some entry =>
      obtain ⟨target, line⟩ := entry
      rw [given] at start
      obtain ⟨address, bound, inCode⟩ := starts target (List.mem_of_head? start.symm)
      have inside := (contains_code fits).mpr inCode
      dsimp only
      rw [agrees.symbols, bound, agrees.codeLength]
      exact ⟨_, if_pos inside⟩

end Checks

end Placement

namespace Layout

variable {interner : Interner} {program : Program} {layout : Layout}

theorem isGlobal_given (records : Placement.Records interner program.toList layout.toPlacement)
    (name : Symbol) :
    layout.isGlobal name ↔ name ∈ program.contents.filterMap (Line.given? .global) := by
  have found : layout.isGlobal name =
      (layout.globals.toList.find? fun entry => decide (entry.1 = name)).isSome := by
    rw [isGlobal, SymbolTable.contains, SymbolTable.lookupToList, Bool.eq_iff_iff, ← not_iff_not]
    simp [@eq_comm _ name]
  rw [found, records.globals fun other => other = name, ← namedBy_contents, List.find?_isSome,
    List.mem_map]
  simp only [decide_eq_true_iff]

/-- Lines that are what they must be have a layout. -/
theorem ofProgram_succeeds (placeable : Placeable interner program.contents) :
    ∃ layout, ofProgram interner program = .ok layout := by
  have begun := Placement.empty_records interner
  have resolves : ∀ line ∈ program.toList, ∀ text ∈ line.content.texts,
      ∃ resolved, interner.resolve text = .ok resolved :=
    fun line member => placeable.texts line.content (List.mem_map_of_mem member)
  have clean : Clean ([] ++ program.toList) := placeable.clean
  obtain ⟨placement, placed⟩ := Placement.addLines_succeeds begun clean resolves
  have records := Placement.addLines_records begun placed
  have agrees : Placement.Agrees interner program.contents placement := records.agrees
  have capacity : placement.checkCapacity = .ok () := by
    apply Placement.checkCapacity_succeeds
    · rw [agrees.codeLength]
      exact placeable.codeFits
    · rw [← Array.length_toList, agrees.constants.rodata]
      exact placeable.rodataFits
    · rw [← Array.length_toList, agrees.data]
      exact placeable.dataFits
  have globals := (Placement.checkGlobals_ok_iff records).mpr placeable.globals
  obtain ⟨offset, entry⟩ := Placement.entryPoint_succeeds records placeable.codeFits placeable.entry
  refine ⟨{ placement with entryPoint := offset }, ?_⟩
  rw [ofProgram, placed, okBind, capacity]
  change (placement.checkGlobals interner >>= _) = _
  rw [globals, okBind, entry]
  rfl

/-- The strings of a program with a layout have texts. -/
theorem ofProgram_texts (laid : ofProgram interner program = .ok layout) {line : Line}
    (member : line ∈ program.contents) :
    ∀ text ∈ line.texts, ∃ resolved, interner.resolve text = .ok resolved := by
  have resolved {text : Symbol} {bytes : List UInt8}
      (encodes : Encodes interner (.string text) bytes) :
      ∃ resolved, interner.resolve text = .ok resolved := by
    cases encodes with
    | string resolved => exact ⟨_, resolved⟩
  have value {operands : Operands}
      (encodes : Encodes interner operands.second (operands.second.bytes interner)) :
      ∀ text ∈ operands.second.text?.toList, ∃ resolved, interner.resolve text = .ok resolved := by
    intro text stored
    cases second : operands.second with
    | string other =>
        rw [second] at stored encodes
        rw [List.mem_singleton.mp stored]
        exact resolved encodes
    | register | integer | char | symbol | absent =>
        rw [second] at stored
        cases stored
  cases line with
  | label name => nofun
  | instruction content =>
      intro text stored
      exact resolved (literal_encodes laid (List.mem_flatMap.mpr ⟨_, member, stored⟩))
  | directive directive operands =>
      cases directive with
      | data => exact value (value_encodes laid (.inl member))
      | rodata => exact value (value_encodes laid (.inr member))
      | start | global | unknown => nofun

/-- What has a layout is what it must be. -/
theorem ofProgram_placeable (laid : ofProgram interner program = .ok layout) :
    Placeable interner program.contents := by
  have records := ofProgram_records laid
  obtain ⟨agrees, codeFits, rodataFits, dataFits⟩ := ofProgram_ok laid
  obtain ⟨_, _, globals, entry⟩ := ofProgram_stages laid
  obtain ⟨directed, oneStart, distinct⟩ := program.clean_iff.mp (ofProgram_clean laid)
  rw [boundNames_contents] at distinct
  rw [agrees.codeLength] at codeFits
  refine ⟨directed, oneStart, distinct, fun line => ofProgram_texts laid, codeFits, ?_, ?_,
    (Placement.checkGlobals_ok_iff records).mp globals, ?_⟩
  · exact (rodata_eq laid).2
  · exact (data_eq laid).2
  · intro target starts
    have start := records.start.trans (given_start oneStart starts)
    rcases Placement.entryPoint_ok entry with ⟨none, _⟩ | ⟨other, line, given, bound, inCode⟩
    · rw [none] at start
      cases start
    · rw [given] at start
      rw [← Option.some.inj start, ← agrees.symbols, ← agrees.codeLength]
      exact ⟨layout.entryPoint, bound, inCode⟩

/-- A layout has the addresses that the lines say. -/
structure Settles (interner : Interner) (lines : List Line) (layout : Layout) : Prop where
  agrees : Placement.Agrees interner lines layout.toPlacement
  isGlobal : ∀ name, layout.isGlobal name = decide (name ∈ lines.filterMap (Line.given? .global))
  entryPoint : layout.entryPoint = entryAddress interner lines

theorem ofProgram_settles (laid : ofProgram interner program = .ok layout) :
    layout.Settles interner program.contents := by
  have records := ofProgram_records laid
  obtain ⟨agrees, _⟩ := ofProgram_ok laid
  refine ⟨agrees, ?_, ?_⟩
  · intro name
    rw [Bool.eq_iff_iff, decide_eq_true_iff]
    exact isGlobal_given records name
  · rw [entryAddress, ← records.start]
    rcases Placement.entryPoint_ok (ofProgram_entryPoint laid) with
      ⟨none, zero⟩ | ⟨target, line, given, bound, _⟩
    · rw [none, zero]
      rfl
    · rw [given, Option.map_some, Option.bind_some, ← agrees.symbols, bound]
      rfl

end Layout

end RegisterMachine
