/-
This file proves that the lines of a program are placed unless something is wrong with one of them,
and that the first thing that is wrong is the one that is raised.
-/

import RegisterMachine.Proofs.Layout.Sizes

namespace RegisterMachine

open Source

/-- A computation raises the first of some errors, and succeeds if there is none. -/
inductive FailsFirst {α : Type} : List EmitError → Except (Abort EmitError) α → Prop
  | raised (error : EmitError) (rest : List EmitError) :
      FailsFirst (error :: rest) (.error (.raised error))
  | done (value : α) : FailsFirst [] (.ok value)

namespace FailsFirst

variable {α β : Type} {faults others : List EmitError}

/-- A sequence raises the errors of its first part before those of the second. -/
theorem bind {first : Except (Abort EmitError) α} {next : α → Except (Abort EmitError) β}
    (firstFails : FailsFirst faults first)
    (nextFails : ∀ value, first = .ok value → FailsFirst others (next value)) :
    FailsFirst (faults ++ others) (first >>= next) := by
  cases firstFails with
  | raised error rest => exact .raised error (rest ++ others)
  | done value => exact nextFails value rfl

theorem eq_nil {value : α} (fails : FailsFirst faults (.ok value)) : faults = [] := by
  cases fails
  rfl

theorem ok_iff {computation : Except (Abort EmitError) α} (fails : FailsFirst faults computation) :
    (∃ value, computation = .ok value) ↔ faults = [] := by
  cases fails with
  | raised error rest => simp
  | done value => simp

theorem raises {computation : Except (Abort EmitError) α} (fails : FailsFirst faults computation)
    (faulty : faults ≠ []) : ∃ error, computation = .error (.raised error) := by
  cases fails with
  | raised error rest => exact ⟨error, rfl⟩
  | done value => exact absurd rfl faulty

theorem error_iff {computation : Except (Abort EmitError) α}
    (fails : FailsFirst faults computation) (reason : Abort EmitError) :
    computation = .error reason ↔ ∃ error, reason = .raised error ∧ faults.head? = some error := by
  cases fails with
  | raised error rest => simp [eq_comm]
  | done value => simp

/-- Items are taken in order. -/
theorem mapM {change : α → Except (Abort EmitError) β} {faultsOf : α → List EmitError}
    {items : List α} (each : ∀ item ∈ items, FailsFirst (faultsOf item) (change item)) :
    FailsFirst (items.flatMap faultsOf) (items.mapM change) := by
  induction items with
  | nil => exact .done []
  | cons item rest inductionHypothesis =>
      rw [List.mapM_cons, List.flatMap_cons]
      apply bind (each item (List.mem_cons_self ..))
      intro value _
      have later := inductionHypothesis fun other member =>
        each other (List.mem_cons_of_mem _ member)
      rw [← List.append_nil (rest.flatMap faultsOf)]
      exact bind later fun values _ => .done (value :: values)

section Search

variable {wrong : α → Bool} {fault? : α → Option EmitError} {items : List α}

/-- A search that finds a wrong item finds the one whose error counts. -/
theorem of_found (same : ∀ item, wrong item = (fault? item).isSome) {item : α} {error : EmitError}
    (found : items.find? wrong = some item) (fault : fault? item = some error) :
    FailsFirst (items.filterMap fault?) (.error (.raised error) : Except _ β) := by
  obtain ⟨_, before, rest, parts, right⟩ := List.find?_eq_some_iff_append.mp found
  have clear : before.filterMap fault? = [] := by
    apply List.filterMap_eq_nil_iff.mpr
    intro other member
    simpa [same] using right other member
  rw [parts, List.filterMap_append, clear, List.filterMap_cons_some fault]
  exact .raised error _

theorem of_clear (same : ∀ item, wrong item = (fault? item).isSome)
    (clear : items.find? wrong = none) (value : β) :
    FailsFirst (items.filterMap fault?) (.ok value) := by
  have none : items.filterMap fault? = [] := by
    apply List.filterMap_eq_nil_iff.mpr
    intro item member
    simpa [same] using List.find?_eq_none.mp clear item member
  rw [none]
  exact .done value

end Search

end FailsFirst

namespace SymbolTable

variable {α : Type}

/-- A name that is bound already adds nothing to what is found. -/
theorem find?_defineFirst (table : SymbolTable α) (name : Symbol) (value : α)
    (wanted : Symbol → Bool) :
    (table.defineFirst name value).toList.find? (fun entry => wanted entry.1) =
      (table.toList.find? fun entry => wanted entry.1).or
        (if wanted name then some (name, value) else none) := by
  rw [defineFirst]
  by_cases absent : table.lookup name = none
  · rw [dif_pos absent, addToList, List.find?_append, List.find?_singleton]
  · rw [dif_neg absent]
    cases found : table.toList.find? fun entry => wanted entry.1 with
    | some entry => rfl
    | none =>
        rw [List.find?_eq_none] at found
        rw [lookupToList, List.lookup_eq_none_iff] at absent
        have unwanted : wanted name = false := by
          by_contra isWanted
          apply absent
          intro entry member
          rw [bne_iff_ne]
          intro same
          rw [same] at isWanted
          exact isWanted (by simpa using found entry member)
        rw [unwanted]
        rfl

end SymbolTable

namespace Placement

/-- What the placement has recorded of some lines. The table of global names keeps one declaration
of each name, the first, so it agrees with the lines only in what a search by name finds. -/
structure Records (interner : Interner) (lines : List NumberedLine) (placement : Placement) :
    Prop where
  agrees : Agrees interner (lines.map NumberedLine.content) placement
  globals : ∀ wanted : Symbol → Bool,
    placement.globals.toList.find? (fun entry => wanted entry.1) =
      (namedBy .global lines).find? fun entry => wanted entry.1
  started : placement.entry.isSome = lines.any fun line => line.content.isStart
  entry : placement.entry = (namedBy .start lines).head?

theorem empty_records (interner : Interner) : Records interner [] empty where
  agrees := empty_agrees interner
  globals _ := rfl
  started := rfl
  entry := rfl

/-- The names that are known are those that lines bind. -/
theorem Records.contains {interner : Interner} {lines : List NumberedLine} {placement : Placement}
    (records : Records interner lines placement) (name : Symbol) :
    placement.symbols.contains name = decide (name ∈ boundNames lines) := by
  rw [SymbolTable.contains, records.agrees.symbols, Bool.eq_iff_iff, decide_eq_true_iff,
    mem_boundNames interner]

section Lines

variable {interner : Interner} {lines : List Line} {before : List NumberedLine}
  {placement after : Placement}

/-- A known symbol has the text that an error is about. -/
theorem raise_textOf {α : Type} {name : Symbol} (knows : interner.Knows name)
    (make : String → EmitError) :
    (do
      let text ← Abort.lift (interner.resolve name)
      throw (.raised (make text)) : Except (Abort EmitError) α) =
      .error (.raised (make (interner.textOf name))) := by
  rw [Interner.resolve_textOf knows]
  rfl

theorem define_fails {extended : Placement} {line : Nat} {name : Symbol} {address : UInt32}
    {bound : List Symbol} (known : extended.symbols.contains name = decide (name ∈ bound))
    (knows : interner.Knows name) :
    FailsFirst
      (if name ∈ bound then some (.duplicateSymbol line (interner.textOf name)) else none).toList
      (extended.define interner line name address) := by
  unfold define SymbolTable.define?
  rw [SymbolTable.contains] at known
  by_cases new : extended.symbols.lookup name = none
  · rw [new] at known
    rw [dif_pos new, if_neg (by simpa using known)]
    exact .done _
  · rw [if_pos (by simpa [Option.isSome_iff_ne_none.mpr new] using known), dif_neg new]
    dsimp only
    rw [raise_textOf knows (.duplicateSymbol line)]
    exact .raised _ []

theorem valueBytes?_eq {operand : Source.Operand} (known : Known interner operand.names) :
    valueBytes? interner operand =
      .ok (if operand.isValue then some (operand.bytes interner) else none) := by
  cases operand with
  | integer | char | register | symbol | absent => rfl
  | string text =>
      have resolved := Interner.resolve_textOf (known text (List.mem_singleton_self text))
      simp [valueBytes?, Operand.bytes, Operand.isValue, resolved]

theorem addString_ok {text : Symbol} (knows : interner.Knows text) :
    ∃ after, placement.addString interner text = .ok after := by
  unfold addString
  split
  · exact ⟨_, rfl⟩
  · rw [Interner.resolve_textOf knows]
    exact ⟨_, rfl⟩

theorem addOperands_ok (placement : Placement) {operands : List Source.Operand}
    (known : ∀ operand ∈ operands, Known interner operand.names) :
    ∃ after, operands.foldlM (addOperand interner) placement = .ok after := by
  induction operands generalizing placement with
  | nil => exact ⟨placement, rfl⟩
  | cons operand rest inductionHypothesis =>
      have added : ∃ next, placement.addOperand interner operand = .ok next := by
        cases operand with
        | string text =>
            have knows := known _ (List.mem_cons_self ..) text (List.mem_singleton_self text)
            exact addString_ok knows
        | register | integer | char | symbol | absent => exact ⟨placement, rfl⟩
      obtain ⟨next, first⟩ := added
      rw [List.foldlM_cons, first]
      exact inductionHypothesis next fun other member =>
        known other (List.mem_cons_of_mem _ member)

theorem addInstruction_ok (placement : Placement) {operands : Operands}
    (known : Known interner operands.names) :
    ∃ after, placement.addInstruction interner operands = .ok after := by
  obtain ⟨after, added⟩ := addOperands_ok placement known.operand
  rw [addInstruction, added]
  exact ⟨_, rfl⟩

theorem addValue_fails {line : NumberedLine} {directive : Directive} {operands : Operands}
    {readOnly : Bool} {bound : List Symbol}
    (contains : ∀ name, placement.symbols.contains name = decide (name ∈ bound))
    (known : Known interner operands.names) (binds : line.content.binds? = operands.first.name?) :
    FailsFirst
      ((line.valueless? directive operands).toList ++ (line.duplicate? interner bound).toList)
      (placement.addValue interner line.number directive readOnly operands) := by
  unfold addValue NumberedLine.valueless? NumberedLine.duplicate?
  rw [binds]
  obtain ⟨first, second⟩ := operands
  cases first with
  | symbol name =>
      have knows : interner.Knows name := known name (by simp [Operands.names, Operand.names])
      have knownValue : Known interner second.names := fun other member =>
        known other (List.mem_append_right _ member)
      dsimp only
      rw [valueBytes?_eq knownValue]
      by_cases value : second.isValue
      · simp only [Operand.name?, value, if_true]
        cases readOnly with
        | true => exact define_fails (contains name) knows
        | false => exact define_fails (contains name) knows
      · simp only [Operand.name?, value]
        exact .raised _ _
  | register | integer | char | string | absent => exact .raised _ _

theorem addDirective_fails {line : NumberedLine} {directive : Directive} {operands : Operands}
    (records : Records interner before placement)
    (content : line.content = .directive directive operands)
    (known : Known interner operands.names) :
    FailsFirst
      ((line.misdirected? (before.any fun other => other.content.isStart)).toList ++
        (line.duplicate? interner (boundNames before)).toList)
      (placement.addDirective interner line.number directive operands) := by
  have contains := records.contains
  unfold NumberedLine.misdirected?
  cases directive with
  | data =>
      rw [content]
      exact addValue_fails contains known (by rw [content]; rfl)
  | rodata =>
      rw [content]
      exact addValue_fails contains known (by rw [content]; rfl)
  | start =>
      obtain ⟨first, second⟩ := operands
      rw [← records.started]
      unfold NumberedLine.duplicate? addDirective
      rw [content]
      cases first with
      | symbol target =>
          dsimp only
          cases placement.entry with
          | none => exact .done _
          | some given => exact .raised _ _
      | register | integer | char | string | absent => exact .raised _ _
  | global =>
      obtain ⟨first, second⟩ := operands
      unfold NumberedLine.duplicate?
      rw [content]
      cases first with
      | symbol name => exact .done _
      | register | integer | char | string | absent => exact .raised _ _
  | unknown =>
      rw [content]
      exact .raised _ _

/-- A line is refused for its directive before it is refused for its name. -/
theorem addLine_fails {line : NumberedLine} (records : Records interner before placement)
    (known : Known interner line.content.names) :
    FailsFirst
      ((line.misdirected? (before.any fun other => other.content.isStart)).toList ++
        (line.duplicate? interner (boundNames before)).toList)
      (placement.addLine interner line) := by
  unfold addLine
  cases content : line.content with
  | label name =>
      rw [content] at known
      rw [NumberedLine.misdirected?, NumberedLine.duplicate?, content]
      exact define_fails (records.contains name) (known name (List.mem_singleton_self name))
  | instruction instruction =>
      rw [content] at known
      rw [NumberedLine.misdirected?, NumberedLine.duplicate?, content]
      obtain ⟨after, added⟩ := addInstruction_ok placement known
      dsimp only
      rw [added]
      exact .done after
  | directive directive operands =>
      rw [content] at known
      exact addDirective_fails records content known

/-- What a line adds to the global names and to the entry point. -/
structure Declares (line : NumberedLine) (placement after : Placement) : Prop where
  globals : ∀ wanted : Symbol → Bool,
    after.globals.toList.find? (fun entry => wanted entry.1) =
      (placement.globals.toList.find? fun entry => wanted entry.1).or
        ((line.namedBy? .global).toList.find? fun entry => wanted entry.1)
  started : after.entry.isSome = (placement.entry.isSome || line.content.isStart)
  entry : after.entry = placement.entry.or (line.namedBy? .start)

/-- Only global directives declare names, and only start directives give the entry point. -/
theorem Declares.of_same {line : NumberedLine} (globals : after.globals = placement.globals)
    (entry : after.entry = placement.entry)
    (others : ∀ operands, line.content ≠ .directive .global operands ∧
      line.content ≠ .directive .start operands) : Declares line placement after := by
  have noName (directive : Directive)
      (other : ∀ operands, line.content ≠ .directive directive operands) :
      line.namedBy? directive = none := by
    rw [Option.eq_none_iff_forall_ne_some]
    rintro ⟨name, number⟩ named
    obtain ⟨operands, content, _⟩ := NumberedLine.namedBy?_eq_some.mp named
    exact other operands content
  have noStart : line.content.isStart = false := by
    unfold Line.isStart
    split
    · rename_i operands content
      exact absurd content (others operands).2
    · rfl
  refine ⟨?_, ?_, ?_⟩
  · intro wanted
    rw [globals, noName .global fun operands => (others operands).1]
    simp
  · rw [entry, noStart, Bool.or_false]
  · rw [entry, noName .start fun operands => (others operands).2, Option.or_none]

theorem addDirective_global {line : NumberedLine} {operands : Operands}
    (content : line.content = .directive .global operands)
    (added : placement.addDirective interner line.number .global operands = .ok after) :
    Declares line placement after := by
  obtain ⟨first, second⟩ := operands
  cases first with
  | symbol name =>
      have named : line.namedBy? .global = some (name, line.number) :=
        NumberedLine.namedBy?_eq_some.mpr ⟨_, content, rfl, rfl⟩
      have noTarget : line.namedBy? .start = none := by simp [NumberedLine.namedBy?, content]
      have noStart : line.content.isStart = false := by rw [content]; rfl
      cases added
      refine ⟨?_, ?_, ?_⟩
      · intro wanted
        rw [SymbolTable.find?_defineFirst, named, Option.toList_some, List.find?_singleton]
      · rw [noStart, Bool.or_false]
      · rw [noTarget, Option.or_none]
  | register | integer | char | string | absent => cases added

theorem addDirective_start {line : NumberedLine} {operands : Operands}
    (content : line.content = .directive .start operands)
    (added : placement.addDirective interner line.number .start operands = .ok after) :
    Declares line placement after := by
  obtain ⟨first, second⟩ := operands
  cases first with
  | symbol target =>
      have named : line.namedBy? .start = some (target, line.number) :=
        NumberedLine.namedBy?_eq_some.mpr ⟨_, content, rfl, rfl⟩
      have noName : line.namedBy? .global = none := by simp [NumberedLine.namedBy?, content]
      dsimp only [addDirective] at added
      split at added
      · cases added
      · rename_i unset
        have first : placement.entry = none := by simpa using unset
        cases added
        refine ⟨?_, ?_, ?_⟩
        · intro wanted
          rw [noName]
          simp
        · rw [content, Line.isStart, Bool.or_true, Option.isSome_some]
        · rw [named, first, Option.none_or]
  | register | integer | char | string | absent => cases added

theorem addLine_declares {line : NumberedLine} (agrees : Agrees interner lines placement)
    (added : placement.addLine interner line = .ok after) : Declares line placement after := by
  unfold addLine at added
  cases content : line.content with
  | label name =>
      rw [content] at added
      obtain ⟨_, same⟩ := define_ok added
      subst same
      exact .of_same rfl rfl fun operands => by simp [content]
  | instruction instruction =>
      rw [content] at added
      obtain ⟨next, operands, returned⟩ := bindOk added
      obtain ⟨_, _, _, same⟩ := addOperands_holds agrees.constants operands
      rw [← Except.ok.inj returned, same]
      exact .of_same rfl rfl fun operands => by simp [content]
  | directive directive operands =>
      rw [content] at added
      cases directive with
      | global => exact addDirective_global content added
      | start => exact addDirective_start content added
      | unknown => cases added
      | data | rodata =>
          obtain ⟨_, _, defined⟩ := addValue_ok added
          obtain ⟨_, same⟩ := define_ok defined
          subst same
          exact .of_same rfl rfl fun operands => by simp [content]

/-- Each line adds to the records what it declares. -/
theorem addLine_records {line : NumberedLine} (records : Records interner before placement)
    (added : placement.addLine interner line = .ok after) :
    Records interner (before ++ [line]) after := by
  have declares := addLine_declares records.agrees added
  refine ⟨?_, ?_, ?_, ?_⟩
  · rw [List.map_append]
    exact addLine_agrees records.agrees added
  · intro wanted
    rw [declares.globals, records.globals, namedBy_append, namedBy_singleton, List.find?_append]
  · rw [declares.started, records.started, List.any_append, List.any_cons, List.any_nil,
      Bool.or_false]
  · rw [declares.entry, records.entry, namedBy_append, namedBy_singleton, List.head?_append,
      Option.head?_toList]

/-- The placement fails for the first fault of the lines. -/
theorem addLines_fails {rest : List NumberedLine} (records : Records interner before placement)
    (known : ∀ line ∈ rest, Known interner line.content.names) :
    FailsFirst (lineFaults interner before rest) (rest.foldlM (addLine interner) placement) := by
  induction rest generalizing before placement with
  | nil => exact .done placement
  | cons line rest inductionHypothesis =>
      rw [List.foldlM_cons, lineFaults]
      apply FailsFirst.bind (addLine_fails records (known line (List.mem_cons_self ..)))
      intro next added
      exact inductionHypothesis (addLine_records records added) fun other member =>
        known other (List.mem_cons_of_mem _ member)

theorem addLines_records {rest : List NumberedLine} (records : Records interner before placement)
    (added : rest.foldlM (addLine interner) placement = .ok after) :
    Records interner (before ++ rest) after := by
  induction rest generalizing before placement with
  | nil =>
      rw [← Except.ok.inj added, List.append_nil]
      exact records
  | cons line rest inductionHypothesis =>
      rw [List.foldlM_cons] at added
      obtain ⟨next, first, others⟩ := bindOk added
      have whole := inductionHypothesis (addLine_records records first) others
      rw [List.append_assoc] at whole
      exact whole

end Lines

end Placement

end RegisterMachine
