/-
This file proves that the instructions of a parsed program have the operands that the instruction
table asks for.
-/

import RegisterMachine.Proofs.Source.Outline

namespace RegisterMachine.Source

/-- Each slot of the instruction table is filled with an operand of its kind, and places without a
slot are empty. -/
structure Instruction.WellKinded (instruction : Instruction) : Prop where
  first : (instruction.opcode.slot 0).accepts instruction.operands.first.kind
  second : (instruction.opcode.slot 1).accepts instruction.operands.second.kind

def Line.WellKinded : Line → Prop
  | .instruction content => content.WellKinded
  | .label _ | .directive _ _ => True

theorem Operands.ofList_first (operands : List Operand) :
    (ofList operands).first = operands.getD 0 .absent := by
  match operands with
  | [] | [_] | _ :: _ :: _ => rfl

theorem Operands.ofList_second (operands : List Operand) :
    (ofList operands).second = operands.getD 1 .absent := by
  match operands with
  | [] | [_] | _ :: _ :: _ => rfl

/-- The operands that were read are of the expected kinds. -/
theorem parseOperands_accepts {interner : Interner} {line : Nat} {opcode : Opcode}
    {expected : List OperandKind} {operandNumber : Nat} {stream rest : TokenStream}
    {operands : List Operand}
    (parsed : parseOperands interner line opcode expected operandNumber stream =
      .ok (operands, rest)) (index : Nat) :
    (expected.getD index .nothing).accepts (operands.getD index .absent).kind := by
  induction expected generalizing operandNumber stream operands index with
  | nil =>
      cases parsed
      rfl
  | cons kind kinds inductionHypothesis =>
      unfold parseOperands at parsed
      obtain ⟨⟨operand, after⟩, _, parsed⟩ := bindOk parsed
      dsimp only at parsed
      split at parsed
      · rename_i accepted
        obtain ⟨⟨others, last⟩, found, returned⟩ := bindOk parsed
        cases returned
        cases index with
        | zero => exact accepted
        | succ index => exact inductionHypothesis found index
      · cases parsed

theorem parseInstruction_wellKinded {interner : Interner} {line : Nat} {opcode : Opcode}
    {stream rest : TokenStream} {content : Line}
    (parsed : parseInstruction interner line opcode stream = .ok (content, rest)) :
    content.WellKinded := by
  obtain ⟨⟨operands, after⟩, found, returned⟩ := bindOk parsed
  cases returned
  have accepted := parseOperands_accepts found
  constructor
  · rw [Operands.ofList_first]
    exact accepted 0
  · rw [Operands.ofList_second]
    exact accepted 1

theorem parseDirective_wellKinded {interner : Interner} {line : Nat} {directive : Directive}
    {stream rest : TokenStream} {content : Line}
    (parsed : parseDirective interner line directive stream = .ok (content, rest)) :
    content.WellKinded := by
  unfold parseDirective at parsed
  split at parsed
  · obtain ⟨⟨first, after⟩, _, parsed⟩ := bindOk parsed
    dsimp only at parsed
    split at parsed
    · obtain ⟨⟨second, last⟩, _, returned⟩ := bindOk parsed
      cases returned
      trivial
    · cases parsed
      trivial
  · cases parsed
    trivial

theorem parseIdentifier_wellKinded {interner following : Interner} {line : Nat} {name : Symbol}
    {stream rest : TokenStream} {content : Line}
    (parsed : parseIdentifier interner line name stream = .ok ((.line content, following), rest)) :
    content.WellKinded := by
  obtain ⟨text, _, parsed⟩ := bindOk parsed
  split at parsed
  · cases parsed
    trivial
  · split at parsed
    · obtain ⟨⟨found, after⟩, instruction, returned⟩ := bindOk parsed
      cases returned
      exact parseInstruction_wellKinded instruction
    · cases parsed

/-- Every line that the parser finds is filled as the instruction table asks. -/
theorem parseItem_wellKinded {interner following : Interner} {line : Nat} {token : Token}
    {stream rest : TokenStream} {content : Line}
    (parsed : parseItem interner line token stream = .ok ((.line content, following), rest)) :
    content.WellKinded := by
  unfold parseItem at parsed
  split at parsed
  · cases parsed
  · cases parsed
  · obtain ⟨⟨found, after⟩, directive, returned⟩ := bindOk parsed
    cases returned
    exact parseDirective_wellKinded directive
  · exact parseIdentifier_wellKinded parsed
  all_goals
    obtain ⟨_, _, thrown⟩ := bindOk parsed
    cases thrown

/-- The lines that the parser finds are filled as the instruction table asks. -/
theorem outline_wellKinded (interner : Interner) (line : Nat) (stream : TokenStream) :
    ∀ found ∈ (outline interner line stream).lines, found.content.WellKinded := by
  induction interner, line, stream using outline_induction with
  | exhausted interner line stream next => simp [outline_none next]
  | ended interner line stream next => simp [outline_end next]
  | stopped interner line stream token reason next more parsed =>
      simp [outline_stop next more parsed]
  | follows interner line stream token item following rest next more parsed inductionHypothesis =>
      rw [outline_item next more parsed, Outline.behind]
      intro found member
      rcases List.mem_append.mp member with first | later
      · cases item with
        | line content =>
            rw [List.mem_singleton.mp first]
            exact parseItem_wellKinded parsed
        | lineEnd | strayRegister => cases first
      · exact inductionHypothesis found later

/-- A computation that gives a value with a property succeeds. -/
theorem exists_ok {α ε : Type} {computation : Except ε α} {check : α → Bool}
    (holds : computation.toOption.any check) :
    ∃ value, computation = .ok value ∧ check value := by
  cases computation with
  | error reason => cases holds
  | ok value => exact ⟨value, rfl, holds⟩

/-- Each instruction stands on a line. -/
theorem Program.mem_instructions {program : Program} {number : Nat} {instruction : Instruction} :
    (number, instruction) ∈ program.instructions ↔
      ∃ line ∈ program.toList, line.content = .instruction instruction ∧ line.number = number := by
  rw [instructions, List.mem_filterMap]
  apply exists_congr
  intro line
  apply and_congr_right
  intro _
  cases line.content with
  | label name | directive directive operands => simp
  | instruction other => simp [and_comm]

/-- The instructions of a parsed program are filled as the instruction table asks. -/
theorem parse_wellKinded {names interner : Interner} {capacity : Nat} {tokens : List Token}
    {program : Program} (parsed : (parse names capacity tokens).value = .ok (program, interner)) :
    ∀ instruction ∈ program.instructions, instruction.2.WellKinded := by
  rw [parse, Parser.run_outline] at parsed
  have contents : program.toList = (outline names 1 (.ofList tokens)).lines :=
    (Outline.fill_ok parsed).2.2.1
  have lines := outline_wellKinded names 1 (.ofList tokens)
  rw [← contents] at lines
  rintro ⟨number, instruction⟩ member
  obtain ⟨line, inProgram, content, _⟩ := Program.mem_instructions.mp member
  have filled := lines line inProgram
  rw [content] at filled
  exact filled

/-- The instructions of a source text that was read are filled as the instruction table asks. -/
theorem read_wellKinded {capacity : Nat} {source : String} {program : Program}
    {interner : Interner} (done : (read capacity source).value = .ok (program, interner)) :
    ∀ instruction ∈ program.instructions, instruction.2.WellKinded := by
  obtain ⟨_, _, parsed⟩ := andThen_ok done
  exact parse_wellKinded (mapErrorOk parsed)

end RegisterMachine.Source
