/-
This file proves that reading a source ends in a defect only if the program has more lines than
there is room for. The parser describes only tokens whose names its interner knows, and it counts
the lines that it completes before anything stops it.
-/

import RegisterMachine.Proofs.Reports
import RegisterMachine.Proofs.Source.Composition

namespace RegisterMachine.Source

open TokenStream (Informed)

section Parsing

variable {interner : Interner} {line : Nat} {stream : TokenStream}

/-- A token is described if its names have texts. -/
theorem Token.describe_ok {token : Token} (known : Known interner token.names) :
    ∃ text, token.describe interner = .ok text := by
  cases token with
  | identifier name | string name =>
      rw [describe, Interner.resolve_textOf (known name List.mem_cons_self)]
      exact ⟨_, rfl⟩
  | register | integer | char | directive | comma | endOfLine | endOfFile => exact ⟨_, rfl⟩

/-- An error that describes a token is raised. -/
theorem describe_reports {α : Type} {token : Token} (known : Known interner token.names)
    (error : String → ParseError) :
    Reports (Abort.lift (token.describe interner) >>= fun found =>
      (throw (.raised (error found)) : Except (Abort ParseError) α)) := by
  obtain ⟨text, described⟩ := Token.describe_ok known
  rw [described]
  exact .raised (error text)

theorem parseOperand_reports {context : String} (informed : Informed interner stream) :
    Reports (parseOperand interner line context stream) := by
  unfold parseOperand
  split
  · exact .raised _
  · rename_i token next
    split
    · exact .ok _
    · exact describe_reports (informed.peek next) _

theorem parseOperands_reports {opcode : Opcode} {expected : List OperandKind}
    {operandNumber : Nat} (informed : Informed interner stream) :
    Reports (parseOperands interner line opcode expected operandNumber stream) := by
  induction expected generalizing operandNumber stream with
  | nil => exact .ok _
  | cons kind kinds inductionHypothesis =>
      unfold parseOperands
      apply Reports.bind (parseOperand_reports informed.eatComma)
      rintro ⟨operand, after⟩ first
      have left := (parseOperand_known informed.eatComma first).2
      dsimp only
      split
      · exact .bind (inductionHypothesis left) fun _ _ => .ok _
      · exact .raised _

theorem parseInstruction_reports {opcode : Opcode} (informed : Informed interner stream) :
    Reports (parseInstruction interner line opcode stream) :=
  .bind (parseOperands_reports informed) fun _ _ => .ok _

theorem parseDirective_reports {directive : Directive} (informed : Informed interner stream) :
    Reports (parseDirective interner line directive stream) := by
  unfold parseDirective
  split
  · apply Reports.bind (parseOperand_reports informed)
    rintro ⟨first, after⟩ found
    have left := (parseOperand_known informed found).2
    dsimp only
    split
    · exact .bind (parseOperand_reports left.eatComma) fun _ _ => .ok _
    · exact .ok _
  · exact .ok _

theorem parseIdentifier_reports {name : Symbol} (knows : interner.Knows name)
    (informed : Informed interner stream) :
    Reports (parseIdentifier interner line name stream) := by
  unfold parseIdentifier
  rw [Interner.resolve_textOf knows]
  simp only [Abort.liftOk, okBind]
  split
  · exact .ok _
  · split
    · exact .bind (parseInstruction_reports informed.advance) fun _ _ => .ok _
    · exact .raised _

/-- An item is read, or the parser reports why not. -/
theorem parseItem_reports {token : Token} (next : stream.peek = some token)
    (informed : Informed interner stream) :
    Reports (parseItem interner line token stream) := by
  have known := informed.peek next
  unfold parseItem
  split
  · exact .ok _
  · exact .ok _
  · exact .bind (parseDirective_reports informed.advance) fun _ _ => .ok _
  · exact parseIdentifier_reports (known _ List.mem_cons_self) informed
  all_goals exact describe_reports known _

/-- What stops the parser before the end is an error in the source. -/
theorem outline_reports (consistent : interner.Consistent) (informed : Informed interner stream)
    {reason : Abort ParseError} (stopped : (outline interner line stream).stop = some reason) :
    ∃ error, reason = .raised error := by
  induction interner, line, stream using outline_induction with
  | exhausted interner line stream next =>
      rw [outline_none next] at stopped
      cases stopped
  | ended interner line stream next =>
      rw [outline_end next] at stopped
      cases stopped
  | stopped interner line stream token cause next more parsed =>
      rw [outline_stop next more parsed] at stopped
      rw [← Option.some.inj stopped]
      have reports : Reports (parseItem interner line token stream) :=
        parseItem_reports next informed
      rw [parsed] at reports
      cases cause with
      | raised error => exact ⟨error, rfl⟩
      | defect cause => exact absurd rfl (reports cause)
  | follows interner line stream token item following rest next more parsed inductionHypothesis =>
      have known := parseItem_known consistent informed parsed
      rw [outline_item next more parsed] at stopped
      cases item with
      | line content =>
          obtain ⟨consistentLater, _, left, _⟩ := known
          exact inductionHypothesis consistentLater left stopped
      | lineEnd | strayRegister =>
          obtain ⟨rfl, left⟩ := known
          exact inductionHypothesis consistent left stopped

end Parsing

/-- Lines that a program has no room for are refused at the first of them. -/
theorem Program.pushAll_full {program : Program} {lines : List NumberedLine} {line : NumberedLine}
    (first : lines[program.capacity - program.size]? = some line) :
    lines.foldlM Program.push program =
      .error (.lineCapacityExceeded program.capacity line.number) := by
  induction lines generalizing program with
  | nil => cases first
  | cons head rest inductionHypothesis =>
      rw [List.foldlM_cons]
      by_cases room : program.size < program.capacity
      · obtain ⟨next, pushed, contents, capacity⟩ := program.push_ok head room
        have size : next.size = program.size + 1 := by
          rw [next.size_eq, contents, List.length_append, program.size_eq]
          rfl
        have shifted : program.capacity - program.size =
            (next.capacity - next.size) + 1 := by omega
        rw [shifted, List.getElem?_cons_succ] at first
        rw [pushed, okBind, inductionHypothesis first, capacity]
      · have here : program.capacity - program.size = 0 := by omega
        rw [here, List.getElem?_cons_zero, Option.some.injEq] at first
        have full : program.push head =
            .error (.lineCapacityExceeded program.capacity head.number) := dif_neg room
        rw [full, errorBind, first]

/-- An outline with more lines than there is room for. -/
theorem Outline.fill_full {outline : Outline} {capacity : Nat} {line : NumberedLine}
    (first : outline.lines[capacity]? = some line) :
    outline.fill (.empty capacity) =
      .error (.defect (.lineCapacityExceeded capacity line.number)) := by
  have refused : outline.lines.foldlM Program.push (.empty capacity) =
      .error (.lineCapacityExceeded capacity line.number) := Program.pushAll_full first
  rw [fill, refused]

/-- How reading a source ends. An error of the lexer comes before everything that the parser finds,
and the first line that there is no room for comes before an error of the parser behind it. -/
inductive ReadEnds (capacity : Nat) (source : String) :
    Except (Abort AssemblyError) (Program × Interner) → Prop
  | malformed (error : LexError)
      (lexed : (lex Interner.empty source.toList).value = .error error) :
      ReadEnds capacity source (.error (.raised (.lex error)))
  | full (tokens : List Token) (names : Interner) (line : NumberedLine)
      (lexed : (lex Interner.empty source.toList).value = .ok (tokens, names))
      (first : (outline names 1 (.ofList tokens)).lines[capacity]? = some line) :
      ReadEnds capacity source (.error (.defect (.lineCapacityExceeded capacity line.number)))
  | refused (tokens : List Token) (names : Interner) (error : ParseError)
      (lexed : (lex Interner.empty source.toList).value = .ok (tokens, names))
      (room : (outline names 1 (.ofList tokens)).lines.length ≤ capacity)
      (stopped : (outline names 1 (.ofList tokens)).stop = some (.raised error)) :
      ReadEnds capacity source (.error (.raised (.parse error)))
  | read (tokens : List Token) (names : Interner) (program : Program)
      (lexed : (lex Interner.empty source.toList).value = .ok (tokens, names))
      (room : (outline names 1 (.ofList tokens)).lines.length ≤ capacity)
      (contents : program.toList = (outline names 1 (.ofList tokens)).lines) :
      ReadEnds capacity source (.ok (program, (outline names 1 (.ofList tokens)).interner))

/-- Reading a source ends in one of the listed ways. -/
theorem read_ends (capacity : Nat) (source : String) :
    ReadEnds capacity source (read capacity source).value := by
  rw [read_value]
  cases lexed : (lex Interner.empty source.toList).value with
  | error error => exact .malformed error lexed
  | ok found =>
      obtain ⟨tokens, names⟩ := found
      obtain ⟨consistent, known⟩ := lex_known lexed
      have informed : Informed names (.ofList tokens) := known
      dsimp only
      change ReadEnds capacity source
        (((outline names 1 (.ofList tokens)).fill (.empty capacity)).mapError (Abort.map .parse))
      cases first : (outline names 1 (.ofList tokens)).lines[capacity]? with
      | some line =>
          rw [Outline.fill_full first]
          exact .full tokens names line lexed first
      | none =>
          have room := List.getElem?_eq_none_iff.mp first
          obtain ⟨reached, stops⟩ := Outline.fill_room room
          cases stopped : (outline names 1 (.ofList tokens)).stop with
          | none =>
              obtain ⟨program, filled, contents⟩ := reached stopped
              rw [filled]
              exact .read tokens names program lexed room contents
          | some reason =>
              obtain ⟨error, raised⟩ := outline_reports consistent informed stopped
              rw [stops reason stopped, raised]
              exact .refused tokens names error lexed room (raised ▸ stopped)

end RegisterMachine.Source
