/-
This file says which programs have a container, from their lines alone, and lists what is wrong with
a program in the order in which it counts. A program has a container exactly if the list is empty.
-/

import Mathlib.Algebra.BigOperators.Group.Finset.Basic
import Mathlib.Data.Finset.Dedup
import RegisterMachine.Proofs.Layout.Code
import RegisterMachine.Proofs.Source.Names

namespace RegisterMachine.Source

namespace Operand

/-- The name that an operand refers to. -/
def name? : Operand → Option Symbol
  | .symbol name => some name
  | .register _ | .integer _ | .char _ | .string _ | .absent => none

theorem name?_eq_some {operand : Operand} {name : Symbol} :
    operand.name? = some name ↔ operand = .symbol name := by
  cases operand <;> simp [name?]

def text? : Operand → Option Symbol
  | .string text => some text
  | .register _ | .integer _ | .char _ | .symbol _ | .absent => none

/-- What the data sections can hold. -/
def isValue : Operand → Bool
  | .integer _ | .char _ | .string _ => true
  | .register _ | .symbol _ | .absent => false

end Operand

/-- The names that an instruction refers to. -/
def Instruction.references (instruction : Instruction) : List Symbol :=
  instruction.operands.toList.filterMap Operand.name?

namespace Line

/-- The name that a line binds to an address. -/
def binds? : Line → Option Symbol
  | .label name => some name
  | .directive .data operands | .directive .rodata operands => operands.first.name?
  | .directive .start _ | .directive .global _ | .directive .unknown _ | .instruction _ => none

def isStart : Line → Bool
  | .directive .start _ => true
  | _ => false

/-- A directive is known and has a name, and a value where it needs one. -/
def isWellDirected : Line → Bool
  | .directive .start operands | .directive .global operands => operands.first.name?.isSome
  | .directive .data operands | .directive .rodata operands =>
      operands.first.name?.isSome && operands.second.isValue
  | .directive .unknown _ => false
  | .label _ | .instruction _ => true

/-- The bytes of a named value of the read-only data. -/
def constantBytes (interner : Interner) : Line → List UInt8
  | .directive .rodata ⟨.symbol _, value⟩ => value.bytes interner
  | _ => []

/-- The string operands of an instruction. -/
def literals : Line → List Symbol
  | .instruction content => content.operands.toList.filterMap Operand.text?
  | .label _ | .directive _ _ => []

end Line

/-- The names that lines bind, in order. -/
def boundNames (lines : List NumberedLine) : List Symbol :=
  lines.filterMap fun line => line.content.binds?

/-- The name that a line gives to a directive, with the number of the line. -/
def NumberedLine.namedBy? (directive : Directive) (line : NumberedLine) : Option (Symbol × Nat) :=
  match line.content with
  | .directive given operands =>
      if given = directive then operands.first.name?.map (·, line.number) else none
  | .label _ | .instruction _ => none

/-- The names that lines give to a directive, in order. -/
def namedBy (directive : Directive) (lines : List NumberedLine) : List (Symbol × Nat) :=
  lines.filterMap (NumberedLine.namedBy? directive)

/-- Named values of the read-only data and one copy of each string operand, however often it
occurs. -/
def rodataSize (interner : Interner) (lines : List Line) : Nat :=
  (lines.map fun line => (line.constantBytes interner).length).sum +
    (lines.flatMap Line.literals).toFinset.sum fun text =>
      ((Operand.string text).bytes interner).length

def dataSize (interner : Interner) (lines : List Line) : Nat :=
  (lines.map fun line => (line.dataBytes interner).length).sum

namespace Program

def codeSize (program : Program) : Nat :=
  8 * program.instructions.length

/-- The sections with their sizes. -/
def sections (interner : Interner) (program : Program) : List (Segment × Nat) :=
  [(.code, program.codeSize), (.rodata, rodataSize interner program.contents),
    (.data, dataSize interner program.contents)]

/-- What a program must be to have a container. -/
structure Emittable (interner : Interner) (program : Program) : Prop where
  directed : ∀ line ∈ program.contents, line.isWellDirected
  oneStart : program.contents.countP Line.isStart ≤ 1
  distinct : (boundNames program.toList).Nodup
  fits : program.codeSize ≤ 0x80000 ∧ rodataSize interner program.contents ≤ 0x40000 ∧
    dataSize interner program.contents ≤ 0x40000
  globals : ∀ declared ∈ namedBy .global program.toList, declared.1 ∈ boundNames program.toList
  entry : ∀ target ∈ namedBy .start program.toList, ∃ address,
    symbolAddress? interner program.contents target.1 = some address ∧
      address.toNat < program.codeSize
  references : ∀ item ∈ program.instructions, ∀ name ∈ item.2.references,
    name ∈ boundNames program.toList

end Program

namespace NumberedLine

/-- What is missing from a directive that gives a name to a value. -/
def valueless? (line : NumberedLine) (directive : Directive) (operands : Operands) :
    Option EmitError :=
  if operands.first.name? = none then
    some (.invalidDirective line.number directive .expectsName)
  else if operands.second.isValue then none
  else some (.invalidDirective line.number directive .expectsValue)

/-- What is wrong with the directive of a line, by itself or because the program has another start
already. -/
def misdirected? (started : Bool) (line : NumberedLine) : Option EmitError :=
  match line.content with
  | .label _ | .instruction _ => none
  | .directive .unknown _ => some (.unknownDirective line.number)
  | .directive .start operands =>
      if operands.first.name? = none then
        some (.invalidDirective line.number .start .expectsLabel)
      else if started then some (.invalidDirective line.number .start .repeated)
      else none
  | .directive .global operands =>
      if operands.first.name? = none then
        some (.invalidDirective line.number .global .expectsSymbol)
      else none
  | .directive .data operands => line.valueless? .data operands
  | .directive .rodata operands => line.valueless? .rodata operands

/-- A line that binds a name once more. -/
def duplicate? (interner : Interner) (bound : List Symbol) (line : NumberedLine) :
    Option EmitError :=
  line.content.binds?.bind fun name =>
    if name ∈ bound then some (.duplicateSymbol line.number (interner.textOf name)) else none

end NumberedLine

/-- What is wrong with the lines behind some others, line by line. -/
def lineFaults (interner : Interner) (before : List NumberedLine) :
    List NumberedLine → List EmitError
  | [] => []
  | line :: rest =>
      (line.misdirected? (before.any fun other => other.content.isStart)).toList ++
        (line.duplicate? interner (boundNames before)).toList ++
        lineFaults interner (before ++ [line]) rest

namespace Program

/-- Sections that are larger than their segments. -/
def overflows (interner : Interner) (program : Program) : List EmitError :=
  (program.sections interner).filterMap fun (segment, size) =>
    if segment.size.toNat < size then some (.sectionOverflow segment size) else none

/-- A reference on a line to a name that no line binds. -/
def undefined? (interner : Interner) (program : Program) (line : Nat) (name : Symbol) :
    Option EmitError :=
  if name ∈ boundNames program.toList then none
  else some (.undefinedSymbol line (interner.textOf name))

def undefinedGlobals (interner : Interner) (program : Program) : List EmitError :=
  (namedBy .global program.toList).filterMap fun (name, line) =>
    program.undefined? interner line name

/-- A start that is bound to no instruction. -/
def misplaced? (interner : Interner) (program : Program) (line : Nat) (target : Symbol) :
    Option EmitError :=
  match symbolAddress? interner program.contents target with
  | none => some (.undefinedSymbol line (interner.textOf target))
  | some address =>
      if address.toNat < program.codeSize then none
      else some (.invalidEntry line (interner.textOf target))

def misplacedStarts (interner : Interner) (program : Program) : List EmitError :=
  (namedBy .start program.toList).filterMap fun (target, line) =>
    program.misplaced? interner line target

/-- What is wrong with an instruction of the program. -/
def instructionFaults (interner : Interner) (program : Program) (line : Nat)
    (instruction : Instruction) : List EmitError :=
  instruction.references.filterMap (program.undefined? interner line)

def undefinedReferences (interner : Interner) (program : Program) : List EmitError :=
  program.instructions.flatMap fun (line, instruction) =>
    program.instructionFaults interner line instruction

/-- All that is wrong with a program, of which the first counts. -/
def faults (interner : Interner) (program : Program) : List EmitError :=
  lineFaults interner [] program.toList ++ program.overflows interner ++
    program.undefinedGlobals interner ++ program.misplacedStarts interner ++
    program.undefinedReferences interner

end Program

/-- Nothing is wrong with any line. -/
structure Clean (lines : List NumberedLine) : Prop where
  directed : ∀ line ∈ lines, line.content.isWellDirected
  oneStart : lines.countP (fun line => line.content.isStart) ≤ 1
  distinct : (boundNames lines).Nodup

theorem boundNames_append (first second : List NumberedLine) :
    boundNames (first ++ second) = boundNames first ++ boundNames second :=
  List.filterMap_append

theorem boundNames_singleton (line : NumberedLine) :
    boundNames [line] = line.content.binds?.toList := by
  rw [boundNames]
  cases binds : line.content.binds? with
  | none => simp [binds]
  | some name => simp [binds]

theorem NumberedLine.namedBy?_eq_some {directive : Directive} {line : NumberedLine}
    {name : Symbol} {number : Nat} :
    line.namedBy? directive = some (name, number) ↔ ∃ operands,
      line.content = .directive directive operands ∧ operands.first.name? = some name ∧
        line.number = number := by
  unfold namedBy?
  cases line.content with
  | label other | instruction content => simp
  | directive given operands =>
      by_cases same : given = directive
      · simp [same]
      · simp [same]

theorem namedBy_append (directive : Directive) (first second : List NumberedLine) :
    namedBy directive (first ++ second) = namedBy directive first ++ namedBy directive second :=
  List.filterMap_append

theorem namedBy_singleton (directive : Directive) (line : NumberedLine) :
    namedBy directive [line] = (line.namedBy? directive).toList := by
  rw [namedBy]
  cases named : line.namedBy? directive with
  | none => rw [List.filterMap_cons_none named, List.filterMap_nil, Option.toList_none]
  | some declared => rw [List.filterMap_cons_some named, List.filterMap_nil, Option.toList_some]

theorem clean_nil : Clean [] :=
  ⟨by simp, by simp, List.nodup_nil⟩

/-- The lines before others are clean if all are. -/
theorem Clean.of_append {before rest : List NumberedLine} (clean : Clean (before ++ rest)) :
    Clean before where
  directed line member := clean.directed line (List.mem_append_left _ member)
  oneStart := by
    have all := clean.oneStart
    rw [List.countP_append] at all
    exact Nat.le_trans (Nat.le_add_right _ _) all
  distinct := by
    have all := clean.distinct
    rw [boundNames_append] at all
    exact all.of_append_left

theorem NumberedLine.misdirected?_eq_none (started : Bool) (line : NumberedLine) :
    line.misdirected? started = none ↔
      line.content.isWellDirected ∧ (line.content.isStart → started = false) := by
  unfold misdirected? valueless?
  cases line.content with
  | label name | instruction content => simp [Line.isWellDirected, Line.isStart]
  | directive directive operands =>
      cases directive <;> cases name : operands.first.name? <;> cases started <;>
        simp [Line.isWellDirected, Line.isStart, name]

theorem NumberedLine.duplicate?_eq_none (interner : Interner) (bound : List Symbol)
    (line : NumberedLine) :
    line.duplicate? interner bound = none ↔
      ∀ name, line.content.binds? = some name → name ∉ bound := by
  unfold duplicate?
  cases line.content.binds? with
  | none => simp
  | some name => simp

/-- A further line is clean if its directive is right and its name is new. -/
theorem clean_append_singleton (interner : Interner) (before : List NumberedLine)
    (line : NumberedLine) :
    Clean (before ++ [line]) ↔
      Clean before ∧
        line.misdirected? (before.any fun other => other.content.isStart) = none ∧
        line.duplicate? interner (boundNames before) = none := by
  rw [NumberedLine.misdirected?_eq_none, NumberedLine.duplicate?_eq_none]
  constructor
  · intro all
    refine ⟨all.of_append, ⟨all.directed line (by simp), ?_⟩, ?_⟩
    · intro start
      have count := all.oneStart
      rw [List.countP_append, List.countP_singleton, if_pos start] at count
      have none := List.countP_eq_zero.mp (Nat.le_zero.mp (Nat.le_of_succ_le_succ count))
      simpa using none
    · intro name binds member
      have distinct := all.distinct
      rw [boundNames_append, boundNames_singleton, binds, List.nodup_append] at distinct
      exact distinct.2.2 name member name (by simp) rfl
  · rintro ⟨clean, ⟨directed, first⟩, new⟩
    refine ⟨?_, ?_, ?_⟩
    · intro other member
      rcases List.mem_append.mp member with earlier | last
      · exact clean.directed other earlier
      · rw [List.mem_singleton.mp last]
        exact directed
    · rw [List.countP_append, List.countP_singleton]
      split
      · rename_i start
        have none : before.countP (fun other => other.content.isStart) = 0 :=
          List.countP_eq_zero.mpr (by simpa using first start)
        rw [none]
      · exact clean.oneStart
    · rw [boundNames_append, boundNames_singleton, List.nodup_append]
      refine ⟨clean.distinct, by cases line.content.binds? <;> simp, ?_⟩
      intro name earlier other last same
      subst same
      exact new name (Option.mem_toList.mp last) earlier

/-- The lines behind clean ones have no faults exactly if all are clean. -/
theorem lineFaults_eq_nil (interner : Interner) {before rest : List NumberedLine}
    (clean : Clean before) : lineFaults interner before rest = [] ↔ Clean (before ++ rest) := by
  induction rest generalizing before with
  | nil => simpa [lineFaults] using clean
  | cons line rest inductionHypothesis =>
      have whole : before ++ line :: rest = before ++ [line] ++ rest := by simp
      rw [lineFaults, List.append_eq_nil_iff, List.append_eq_nil_iff, Option.toList_eq_nil_iff,
        Option.toList_eq_nil_iff, whole]
      constructor
      · rintro ⟨⟨directed, new⟩, others⟩
        have next := (clean_append_singleton interner before line).mpr ⟨clean, directed, new⟩
        exact (inductionHypothesis next).mp others
      · intro all
        have next := all.of_append
        exact ⟨((clean_append_singleton interner before line).mp next).2,
          (inductionHypothesis next).mpr all⟩

namespace Program

variable (interner : Interner) (program : Program)

theorem clean_iff :
    Clean program.toList ↔ (∀ line ∈ program.contents, line.isWellDirected) ∧
      program.contents.countP Line.isStart ≤ 1 ∧ (boundNames program.toList).Nodup := by
  rw [contents, List.forall_mem_map, List.countP_map]
  constructor
  · intro clean
    exact ⟨clean.directed, clean.oneStart, clean.distinct⟩
  · rintro ⟨directed, oneStart, distinct⟩
    exact ⟨directed, oneStart, distinct⟩

theorem overflows_eq_nil :
    program.overflows interner = [] ↔
      program.codeSize ≤ 0x80000 ∧ rodataSize interner program.contents ≤ 0x40000 ∧
        dataSize interner program.contents ≤ 0x40000 := by
  have code : Segment.code.size.toNat = 0x80000 := rfl
  have rodata : Segment.rodata.size.toNat = 0x40000 := rfl
  have data : Segment.data.size.toNat = 0x40000 := rfl
  simp [overflows, sections, List.filterMap_eq_nil_iff, code, rodata, data]

theorem undefined?_eq_none (line : Nat) (name : Symbol) :
    program.undefined? interner line name = none ↔ name ∈ boundNames program.toList := by
  simp [undefined?]

theorem undefinedGlobals_eq_nil :
    program.undefinedGlobals interner = [] ↔
      ∀ declared ∈ namedBy .global program.toList, declared.1 ∈ boundNames program.toList := by
  simp [undefinedGlobals, List.filterMap_eq_nil_iff, undefined?_eq_none]

theorem misplaced?_eq_none (line : Nat) (target : Symbol) :
    program.misplaced? interner line target = none ↔
      ∃ address, symbolAddress? interner program.contents target = some address ∧
        address.toNat < program.codeSize := by
  unfold misplaced?
  cases symbolAddress? interner program.contents target with
  | none => simp
  | some address => simp

theorem misplacedStarts_eq_nil :
    program.misplacedStarts interner = [] ↔
      ∀ target ∈ namedBy .start program.toList, ∃ address,
        symbolAddress? interner program.contents target.1 = some address ∧
          address.toNat < program.codeSize := by
  simp [misplacedStarts, List.filterMap_eq_nil_iff, misplaced?_eq_none]

theorem undefinedReferences_eq_nil :
    program.undefinedReferences interner = [] ↔
      ∀ item ∈ program.instructions, ∀ name ∈ item.2.references,
        name ∈ boundNames program.toList := by
  simp [undefinedReferences, instructionFaults, List.flatMap_eq_nil_iff,
    List.filterMap_eq_nil_iff, undefined?_eq_none]

/-- Nothing is wrong with a program exactly if it is what it must be. -/
theorem faults_eq_nil : program.faults interner = [] ↔ program.Emittable interner := by
  rw [faults, List.append_eq_nil_iff, List.append_eq_nil_iff, List.append_eq_nil_iff,
    List.append_eq_nil_iff, lineFaults_eq_nil interner clean_nil, List.nil_append, clean_iff,
    overflows_eq_nil, undefinedGlobals_eq_nil, misplacedStarts_eq_nil, undefinedReferences_eq_nil]
  constructor
  · rintro ⟨⟨⟨⟨⟨directed, oneStart, distinct⟩, fits⟩, globals⟩, entry⟩, references⟩
    exact ⟨directed, oneStart, distinct, fits, globals, entry, references⟩
  · intro emittable
    exact ⟨⟨⟨⟨⟨emittable.directed, emittable.oneStart, emittable.distinct⟩, emittable.fits⟩,
      emittable.globals⟩, emittable.entry⟩, emittable.references⟩

end Program

end RegisterMachine.Source
