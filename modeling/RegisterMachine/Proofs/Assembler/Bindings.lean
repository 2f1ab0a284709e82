/-
This file proves that a container leaves no name without an address. Only the second operand of a
start or a global directive, which nothing reads, may be any name.
-/

import RegisterMachine.Proofs.Assembler.Emission

namespace RegisterMachine

open Source

namespace Source

/-- The names that a line needs an address for. -/
def Line.requires : Line → List Symbol
  | .instruction content => content.references
  | .directive .start operands | .directive .global operands => operands.first.name?.toList
  | .directive .data operands | .directive .rodata operands =>
      operands.toList.filterMap Operand.name?
  | .label _ | .directive .unknown _ => []

/-- A directive with a value refers to no name but its own. -/
theorem valueDirective_requires {operands : Operands} {name : Symbol}
    (value : operands.second.isValue) (required : name ∈ operands.toList.filterMap Operand.name?) :
    operands.first.name? = some name := by
  obtain ⟨operand, member, isName⟩ := List.mem_filterMap.mp required
  rcases List.mem_pair.mp member with first | second
  · rw [← first, isName]
  · rw [← second, Operand.name?_eq_some.mp isName] at value
    cases value

theorem NumberedLine.mem_namedBy {directive : Directive} {line : NumberedLine}
    {lines : List NumberedLine} {operands : Operands} {name : Symbol} (member : line ∈ lines)
    (content : line.content = .directive directive operands)
    (first : operands.first.name? = some name) : (name, line.number) ∈ namedBy directive lines :=
  List.mem_filterMap.mpr
    ⟨line, member, NumberedLine.namedBy?_eq_some.mpr ⟨operands, content, first, rfl⟩⟩

namespace Program

variable {interner : Interner} {program : Program}

/-- A program that is what it must be binds all names that its lines need. -/
theorem Emittable.requires_bound (emittable : program.Emittable interner) {line : Line}
    (member : line ∈ program.contents) {name : Symbol} (required : name ∈ line.requires) :
    name ∈ boundNames program.toList := by
  have directed := emittable.directed line member
  obtain ⟨numbered, inProgram, content⟩ := List.mem_map.mp member
  cases line with
  | label other => cases required
  | instruction source =>
      have item : (numbered.number, source) ∈ program.instructions :=
        mem_instructions.mpr ⟨numbered, inProgram, content, rfl⟩
      exact emittable.references _ item name required
  | directive directive operands =>
      cases directive with
      | start =>
          have target := NumberedLine.mem_namedBy inProgram content (Option.mem_toList.mp required)
          obtain ⟨address, found, _⟩ := emittable.entry _ target
          exact (mem_boundNames interner program.toList name).mpr
            (Option.isSome_iff_exists.mpr ⟨address, found⟩)
      | global =>
          have declared := NumberedLine.mem_namedBy inProgram content
            (Option.mem_toList.mp required)
          exact emittable.globals _ declared
      | data | rodata =>
          rw [Line.isWellDirected, Bool.and_eq_true] at directed
          refine List.mem_filterMap.mpr ⟨numbered, inProgram, ?_⟩
          rw [content]
          exact valueDirective_requires directed.2 required
      | unknown => cases required

end Program

end Source

/-- The names of a layout are those that the lines of its program bind. -/
theorem Layout.lookup_isSome {interner : Interner} {program : Program} {layout : Layout}
    (laid : Layout.ofProgram interner program = .ok layout) (name : Symbol) :
    (layout.symbols.lookup name).isSome ↔ name ∈ boundNames program.toList := by
  rw [(Layout.ofProgram_ok laid).1.symbols, mem_boundNames interner program.toList]
  rfl

/-- A container comes from a layout that binds all names that the lines need, and a line that needs
a name that no line binds makes the assembler raise an error. -/
theorem assembled_bound {capacity : Nat} {source : String} {program : Program}
    {interner : Interner} (parsed : (read capacity source).value = .ok (program, interner)) :
    (∀ container, (program.emit interner).value = .ok container →
        ∃ layout, Layout.ofProgram interner program = .ok layout ∧
          ∀ line ∈ program.contents, ∀ name ∈ line.requires,
            (layout.symbols.lookup name).isSome) ∧
      ∀ line ∈ program.contents, ∀ name ∈ line.requires, name ∉ boundNames program.toList →
        ∃ error, (program.emit interner).value = .error (.raised error) := by
  have fails := Program.emit_fails (read_wellKinded parsed) (read_known parsed)
  constructor
  · intro container emitted
    have emittable := (program.faults_eq_nil interner).mp (fails.ok_iff.mp ⟨container, emitted⟩)
    rw [Program.emit_value] at emitted
    obtain ⟨layout, laid, _⟩ := bindOk emitted
    refine ⟨layout, laid, ?_⟩
    intro line member name required
    exact (Layout.lookup_isSome laid name).mpr (emittable.requires_bound member required)
  · intro line member name required unbound
    have faulty : program.faults interner ≠ [] := by
      intro none
      have emittable := (program.faults_eq_nil interner).mp none
      exact unbound (emittable.requires_bound member required)
    exact fails.raises faulty

/-- A program with a start, a global name and a datum binds them all, and a jump to an unknown name
has no container. -/
theorem assembled_bound_datum :
    (∃ program interner layout,
      (read 10 ".START go\n.GLOBAL x\n.DATA x 1\ngo: halt").value = .ok (program, interner) ∧
      Layout.ofProgram interner program = .ok layout ∧
      ∀ line ∈ program.contents, ∀ name ∈ line.requires,
        (layout.symbols.lookup name).isSome) ∧
      ∃ program interner error, (read 10 "jmp b").value = .ok (program, interner) ∧
        (program.emit interner).value = .error (.raised error) := by
  constructor
  · have accepted : (read 10 ".START go\n.GLOBAL x\n.DATA x 1\ngo: halt").value.toOption.any
        fun parsed => (parsed.1.emit parsed.2).value.toOption.any fun _ => true := by
      decide +kernel
    obtain ⟨⟨program, interner⟩, parsed, accepted⟩ := exists_ok accepted
    obtain ⟨container, emitted, _⟩ := exists_ok accepted
    obtain ⟨layout, laid, bound⟩ := (assembled_bound parsed).1 container emitted
    exact ⟨program, interner, layout, parsed, laid, bound⟩
  · have unbound : (read 10 "jmp b").value.toOption.any fun parsed =>
        parsed.1.contents.any fun line => line.requires.any fun name =>
          decide (name ∉ boundNames parsed.1.toList) := by
      decide +kernel
    obtain ⟨⟨program, interner⟩, parsed, unbound⟩ := exists_ok unbound
    obtain ⟨line, member, needed⟩ := List.any_eq_true.mp unbound
    obtain ⟨name, required, absent⟩ := List.any_eq_true.mp needed
    obtain ⟨error, raised⟩ :=
      (assembled_bound parsed).2 line member name required (of_decide_eq_true absent)
    exact ⟨program, interner, error, parsed, raised⟩

/-- Nothing binds the second operands of this start and this global directive. -/
theorem secondOperands_unbound :
    ∃ program interner container layout,
      (read 10 ".START main, ghost\n.GLOBAL main, phantom\nmain: halt").value =
        .ok (program, interner) ∧
      (program.emit interner).value = .ok container ∧
      Layout.ofProgram interner program = .ok layout ∧
      (.directive .start ⟨.symbol ⟨0⟩, .symbol ⟨1⟩⟩ ∈ program.contents ∧
        interner.textOf ⟨1⟩ = "ghost" ∧ layout.symbols.lookup ⟨1⟩ = none) ∧
      .directive .global ⟨.symbol ⟨0⟩, .symbol ⟨2⟩⟩ ∈ program.contents ∧
        interner.textOf ⟨2⟩ = "phantom" ∧ layout.symbols.lookup ⟨2⟩ = none := by
  have found :
      (read 10 ".START main, ghost\n.GLOBAL main, phantom\nmain: halt").value.toOption.any
        fun parsed => (parsed.1.emit parsed.2).value.toOption.any fun _ =>
          (Layout.ofProgram parsed.2 parsed.1).toOption.any fun layout =>
            decide ((.directive .start ⟨.symbol ⟨0⟩, .symbol ⟨1⟩⟩ ∈ parsed.1.contents ∧
              parsed.2.textOf ⟨1⟩ = "ghost" ∧ layout.symbols.lookup ⟨1⟩ = none) ∧
              .directive .global ⟨.symbol ⟨0⟩, .symbol ⟨2⟩⟩ ∈ parsed.1.contents ∧
              parsed.2.textOf ⟨2⟩ = "phantom" ∧ layout.symbols.lookup ⟨2⟩ = none) := by
    decide +kernel
  obtain ⟨⟨program, interner⟩, parsed, found⟩ := exists_ok found
  obtain ⟨container, emitted, found⟩ := exists_ok found
  obtain ⟨layout, laid, unbound⟩ := exists_ok found
  exact ⟨program, interner, container, layout, parsed, emitted, laid, of_decide_eq_true unbound⟩

end RegisterMachine
