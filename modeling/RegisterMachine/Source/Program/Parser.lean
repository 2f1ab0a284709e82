/-
This file reads programs from tokens. A program is a sequence of labels, instructions and
directives; the instruction table says how many operands an instruction has and of what kinds.
-/

import RegisterMachine.Diagnostic
import RegisterMachine.Source.Program.Basic
import RegisterMachine.Source.Token.Stream

namespace RegisterMachine.Source

/-- Why tokens are no program; operands count from one. -/
inductive ParseError where
  | unknownMnemonic (line : Nat) (name : String)
  | unexpectedToken (line : Nat) (found : String)
  | expectedOperand (line : Nat) (context found : String)
  | operandKindMismatch (line : Nat) (opcode : Opcode) (operand : Nat)
      (expected found : OperandKind)
  deriving DecidableEq, Repr

namespace ParseError

def line : ParseError → Nat
  | unknownMnemonic line _ | unexpectedToken line _ | expectedOperand line _ _ |
    operandKindMismatch line _ _ _ _ => line

def message : ParseError → String
  | unknownMnemonic line name => s!"line {line}: unknown mnemonic `" ++ name ++ "`"
  | unexpectedToken line found => s!"line {line}: unexpected " ++ found
  | expectedOperand line context found =>
      s!"line {line}: `" ++ context ++ "` expects an operand, found " ++ found
  | operandKindMismatch line opcode operand expected found =>
      s!"line {line}: operand {operand} of `" ++ opcode.mnemonic ++ "` must be " ++
        expected.name ++ ", found " ++ found.name

end ParseError

/-- Tokens that can stand as an operand. -/
def Token.operand? : Token → Option Operand
  | .register named => some (.register named)
  | .identifier name => some (.symbol name)
  | .integer value => some (.integer value)
  | .char byte => some (.char byte)
  | .string text => some (.string text)
  | .directive _ | .comma | .endOfLine | .endOfFile => none

/-- One operand of the mnemonic or directive that is the context. -/
def parseOperand (interner : Interner) (line : Nat) (context : String) (stream : TokenStream) :
    Except (Abort ParseError) (Operand × TokenStream) := do
  match stream.peek with
  | none => throw (.raised (.expectedOperand line context "end of input"))
  | some token =>
      match token.operand? with
      | some operand => return (operand, stream.advance)
      | none =>
          let found ← Abort.lift (token.describe interner)
          throw (.raised (.expectedOperand line context found))

/-- An operand for each of the expected kinds; a comma may stand before each. -/
def parseOperands (interner : Interner) (line : Nat) (opcode : Opcode) :
    (expected : List OperandKind) → (operandNumber : Nat) → TokenStream →
      Except (Abort ParseError) (List Operand × TokenStream)
  | [], _, stream => return ([], stream)
  | kind :: kinds, operandNumber, stream => do
      let (operand, stream) ← parseOperand interner line opcode.mnemonic stream.eatComma.2
      if kind.accepts operand.kind then
        let (operands, stream) ←
          parseOperands interner line opcode kinds (operandNumber + 1) stream
        return (operand :: operands, stream)
      else
        throw (.raised (.operandKindMismatch line opcode operandNumber kind operand.kind))

def parseInstruction (interner : Interner) (line : Nat) (opcode : Opcode)
    (stream : TokenStream) : Except (Abort ParseError) (Line × TokenStream) := do
  let (operands, stream) ← parseOperands interner line opcode opcode.slots 1 stream
  return (.instruction ⟨opcode, Operands.ofList operands⟩, stream)

def TokenStream.atOperand (stream : TokenStream) : Bool :=
  (stream.peek.bind Token.operand?).isSome

/-- A directive has up to two operands; a comma after the first asks for the second. -/
def parseDirective (interner : Interner) (line : Nat) (directive : Directive)
    (stream : TokenStream) : Except (Abort ParseError) (Line × TokenStream) := do
  if stream.atOperand then
    let (first, stream) ← parseOperand interner line directive.name stream
    let (comma, stream) := stream.eatComma
    if comma || stream.atOperand then
      let (second, stream) ← parseOperand interner line directive.name stream
      return (.directive directive ⟨first, second⟩, stream)
    else return (.directive directive ⟨first, .absent⟩, stream)
  else return (.directive directive Operands.none, stream)

/-- The name before a final colon. -/
def labelName? (text : String) : Option String :=
  if text.toList.getLast? = some ':' then some (String.ofList text.toList.dropLast) else none

/-- What one step of the parser finds: a line of the program, or a token that adds no line. -/
inductive Item where
  | line (content : Line)
  | lineEnd
  | strayRegister (register : Register)
  deriving DecidableEq, Repr

/-- A label is interned again without its colon. -/
def parseIdentifier (interner : Interner) (line : Nat) (name : Symbol) (stream : TokenStream) :
    Except (Abort ParseError) ((Item × Interner) × TokenStream) := do
  let text ← Abort.lift (interner.resolve name)
  match labelName? text with
  | some label =>
      let (symbol, interner) := interner.intern label
      return ((.line (.label symbol), interner), stream.advance)
  | none =>
      match Opcode.ofMnemonic? text with
      | some opcode =>
          let (content, stream) ← parseInstruction interner line opcode stream.advance
          return ((.line content, interner), stream)
      | none => throw (.raised (.unknownMnemonic line text))

/-- The item at a token; the token itself is still the first of the stream. -/
def parseItem (interner : Interner) (line : Nat) (token : Token) (stream : TokenStream) :
    Except (Abort ParseError) ((Item × Interner) × TokenStream) := do
  match token with
  | .endOfLine => return ((.lineEnd, interner), stream.advance)
  | .register register => return ((.strayRegister register, interner), stream.advance)
  | .directive directive =>
      let (content, stream) ← parseDirective interner line directive stream.advance
      return ((.line content, interner), stream)
  | .identifier name => parseIdentifier interner line name stream
  | .integer _ | .char _ | .string _ | .comma | .endOfFile =>
      let found ← Abort.lift (token.describe interner)
      throw (.raised (.unexpectedToken line found))

theorem parseOperandShorter {interner : Interner} {line : Nat} {context : String}
    {stream rest : TokenStream} {operand : Operand}
    (parsed : parseOperand interner line context stream = .ok (operand, rest)) :
    rest.pending.length < stream.pending.length := by
  unfold parseOperand at parsed
  split at parsed
  · cases parsed
  · rename_i token next
    split at parsed
    · cases parsed
      exact TokenStream.advanceShorter next
    · obtain ⟨_, _, thrown⟩ := bindOk parsed
      cases thrown

theorem parseOperandsLength {interner : Interner} {line : Nat} {opcode : Opcode}
    {expected : List OperandKind} {operandNumber : Nat} {stream rest : TokenStream}
    {operands : List Operand}
    (parsed : parseOperands interner line opcode expected operandNumber stream =
      .ok (operands, rest)) :
    rest.pending.length ≤ stream.pending.length := by
  induction expected generalizing operandNumber stream operands with
  | nil =>
      cases parsed
      exact Nat.le_refl _
  | cons kind kinds inductionHypothesis =>
      unfold parseOperands at parsed
      obtain ⟨⟨operand, after⟩, first, parsed⟩ := bindOk parsed
      have shorter := parseOperandShorter first
      have comma := stream.eatCommaLength
      dsimp only at parsed
      split at parsed
      · obtain ⟨⟨others, last⟩, second, returned⟩ := bindOk parsed
        cases returned
        have tail := inductionHypothesis second
        omega
      · cases parsed

theorem parseInstructionLength {interner : Interner} {line : Nat} {opcode : Opcode}
    {stream rest : TokenStream} {content : Line}
    (parsed : parseInstruction interner line opcode stream = .ok (content, rest)) :
    rest.pending.length ≤ stream.pending.length := by
  obtain ⟨⟨operands, after⟩, found, returned⟩ := bindOk parsed
  cases returned
  exact parseOperandsLength found

theorem parseDirectiveLength {interner : Interner} {line : Nat} {directive : Directive}
    {stream rest : TokenStream} {content : Line}
    (parsed : parseDirective interner line directive stream = .ok (content, rest)) :
    rest.pending.length ≤ stream.pending.length := by
  unfold parseDirective at parsed
  split at parsed
  · obtain ⟨⟨first, after⟩, found, parsed⟩ := bindOk parsed
    have firstShorter := parseOperandShorter found
    have comma := after.eatCommaLength
    dsimp only at parsed
    split at parsed
    · obtain ⟨⟨second, last⟩, found, returned⟩ := bindOk parsed
      have secondShorter := parseOperandShorter found
      cases returned
      dsimp only
      omega
    · cases parsed
      omega
  · cases parsed
    exact Nat.le_refl _

/-- Every item takes at least one token. -/
theorem parseItemShorter {interner following : Interner} {line : Nat} {token : Token}
    {stream rest : TokenStream} {item : Item} (next : stream.peek = some token)
    (parsed : parseItem interner line token stream = .ok ((item, following), rest)) :
    rest.pending.length < stream.pending.length := by
  have shorter := TokenStream.advanceShorter next
  unfold parseItem at parsed
  split at parsed
  · cases parsed
    exact shorter
  · cases parsed
    exact shorter
  · obtain ⟨⟨content, after⟩, found, returned⟩ := bindOk parsed
    cases returned
    exact Nat.lt_of_le_of_lt (parseDirectiveLength found) shorter
  · obtain ⟨text, _, parsed⟩ := bindOk parsed
    split at parsed
    · cases parsed
      exact shorter
    · split at parsed
      · obtain ⟨⟨content, after⟩, found, returned⟩ := bindOk parsed
        cases returned
        exact Nat.lt_of_le_of_lt (parseInstructionLength found) shorter
      · cases parsed
  all_goals
    obtain ⟨_, _, thrown⟩ := bindOk parsed
    cases thrown

/-- What the parser has read so far. -/
structure Parser where
  stream : TokenStream
  interner : Interner
  log : Array Diagnostic
  line : Nat
  program : Program

/-- Parsing ends at the first end of file, or after the last token. -/
def Parser.run (parser : Parser) :
    Logged (Except (Abort ParseError) (Program × Interner)) :=
  let ⟨stream, interner, log, line, program⟩ := parser
  match _next : stream.peek with
  | none | some .endOfFile =>
      ⟨(log.push (.parsedProgram program.size)).toList, .ok (program, interner)⟩
  | some token =>
      match _parsed : parseItem interner line token stream with
      | .error reason => ⟨log.toList, .error reason⟩
      | .ok ((.lineEnd, interner), rest) => run ⟨rest, interner, log, line + 1, program⟩
      | .ok ((.strayRegister register, interner), rest) =>
          run ⟨rest, interner, log.push (.strayRegister line register), line, program⟩
      | .ok ((.line content, interner), rest) =>
          match program.push ⟨line, content⟩ with
          | .error defect => ⟨log.toList, .error (.defect defect)⟩
          | .ok program => run ⟨rest, interner, log, line, program⟩
termination_by parser.stream.pending.length
decreasing_by
  all_goals exact parseItemShorter _next _parsed

/-- Source lines count from one. -/
def parse (interner : Interner) (capacity : Nat) (tokens : List Token) :
    Logged (Except (Abort ParseError) (Program × Interner)) :=
  Parser.run ⟨TokenStream.ofList tokens, interner, #[], 1, Program.empty capacity⟩

end RegisterMachine.Source
