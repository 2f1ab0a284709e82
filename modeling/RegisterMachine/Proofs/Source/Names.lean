/-
This file proves that an interner knows every name of the programs that are read with it. Tokens
bring names from the lexer, and the parser adds the names of labels, so a program that was read
never mentions a symbol without a text.
-/

import RegisterMachine.Proofs.Source.Kinds

namespace RegisterMachine

namespace Interner

/-- There is a text for the symbol. -/
def Knows (interner : Interner) (name : Symbol) : Prop :=
  name.index < interner.size

/-- The index leads to symbols that have a text. -/
def Consistent (interner : Interner) : Prop :=
  ∀ text name, interner.get? text = some name → interner.Knows name

theorem empty_consistent : empty.Consistent := by
  intro text name found
  simp [get?, empty] at found

theorem Knows.mono {before after : Interner} {name : Symbol} (knows : before.Knows name)
    (grown : before.size ≤ after.size) : after.Knows name :=
  Nat.lt_of_lt_of_le knows grown

/-- An interner knows the symbol that it hands out and forgets none. -/
theorem intern_knows {interner : Interner} (consistent : interner.Consistent) (text : String) :
    (interner.intern text).2.Consistent ∧
      (interner.intern text).2.Knows (interner.intern text).1 ∧
      interner.size ≤ (interner.intern text).2.size := by
  unfold intern
  cases found : interner.get? text with
  | some name => exact ⟨consistent, consistent text name found, Nat.le_refl _⟩
  | none =>
      simp only [Consistent, Knows, size, Array.size_push]
      refine ⟨?_, Nat.lt_succ_self _, Nat.le_succ _⟩
      intro other name given
      rw [get?, Std.TreeMap.getElem?_insert] at given
      split at given
      · rw [← Option.some.inj given]
        exact Nat.lt_succ_self _
      · exact Nat.lt_succ_of_lt (consistent other name given)

/-- The text of a symbol, or no characters for a symbol of another interner. -/
def textOf (interner : Interner) (name : Symbol) : String :=
  (interner.tryResolve name).getD ""

theorem resolve_textOf {interner : Interner} {name : Symbol} (knows : interner.Knows name) :
    interner.resolve name = .ok (interner.textOf name) := by
  have found : interner.tryResolve name = some (interner.textAt interner.spans[name.index]) := by
    rw [tryResolve, Array.getElem?_eq_getElem knows, Option.map_some]
  rw [resolve, textOf, found]
  rfl

end Interner

namespace Source

/-- A name or the text of a string. -/
def Operand.names : Operand → List Symbol
  | .string name | .symbol name => [name]
  | .register _ | .integer _ | .char _ | .absent => []

def Operands.names (operands : Operands) : List Symbol :=
  operands.first.names ++ operands.second.names

/-- All symbols that a line mentions. -/
def Line.names : Line → List Symbol
  | .label name => [name]
  | .instruction content => content.operands.names
  | .directive _ operands => operands.names

def Token.names : Token → List Symbol
  | .identifier name | .string name => [name]
  | .register _ | .integer _ | .char _ | .directive _ | .comma | .endOfLine | .endOfFile => []

/-- All of some symbols have a text. -/
def Known (interner : Interner) (names : List Symbol) : Prop :=
  ∀ name ∈ names, interner.Knows name

namespace Known

variable {interner : Interner}

theorem nil : Known interner [] := by
  intro name member
  cases member

theorem singleton {name : Symbol} (knows : interner.Knows name) : Known interner [name] := by
  intro other member
  rw [List.mem_singleton.mp member]
  exact knows

theorem mono {after : Interner} {names : List Symbol} (known : Known interner names)
    (grown : interner.size ≤ after.size) : Known after names :=
  fun name member => (known name member).mono grown

theorem append {first second : List Symbol} (knownFirst : Known interner first)
    (knownSecond : Known interner second) : Known interner (first ++ second) := by
  intro name member
  rcases List.mem_append.mp member with front | back
  · exact knownFirst name front
  · exact knownSecond name back

/-- The texts of all operands are known if those of the two places are. -/
theorem operand {operands : Operands} (known : Known interner operands.names)
    (operand : Operand) (member : operand ∈ operands.toList) : Known interner operand.names := by
  intro name mentioned
  apply known name
  rw [Operands.names, List.mem_append]
  rw [Operands.toList, List.mem_cons, List.mem_singleton] at member
  rcases member with first | second
  · exact .inl (first ▸ mentioned)
  · exact .inr (second ▸ mentioned)

end Known

theorem Token.ofReading_known {interner : Interner} (consistent : interner.Consistent)
    (reading : Reading) :
    (ofReading interner reading).2.Consistent ∧
      Known (ofReading interner reading).2 (ofReading interner reading).1.names ∧
      interner.size ≤ (ofReading interner reading).2.size := by
  cases reading with
  | comma | endOfLine | register | directive | integer | char =>
      exact ⟨consistent, .nil, Nat.le_refl _⟩
  | string text | identifier text =>
      obtain ⟨extended, knows, grown⟩ := Interner.intern_knows consistent text
      exact ⟨extended, .singleton knows, grown⟩

namespace Lexer

/-- The interner of a lexer knows the names of its tokens. -/
structure Informed (lexer : Lexer) : Prop where
  consistent : lexer.interner.Consistent
  tokens : ∀ token ∈ lexer.tokens.toList, Known lexer.interner token.names

theorem Informed.take {lexer after : Lexer} {characters : List Char} (informed : lexer.Informed)
    (taken : lexer.take characters = .ok after) : after.Informed := by
  unfold Lexer.take classify at taken
  dsimp only at taken
  cases read : Reading.of? characters with
  | none =>
      rw [read] at taken
      cases taken
  | some reading =>
      rw [read] at taken
      cases taken
      obtain ⟨consistent, known, grown⟩ := Token.ofReading_known informed.consistent reading
      refine ⟨consistent, ?_⟩
      intro token member
      rw [Array.toList_push, List.mem_append, List.mem_singleton] at member
      rcases member with earlier | last
      · exact (informed.tokens token earlier).mono grown
      · rw [last]
        exact known

theorem Informed.step {lexer after : Lexer} {lexeme : Lexeme} (informed : lexer.Informed)
    (stepped : lexer.step lexeme = .ok after) : after.Informed := by
  unfold Lexer.step at stepped
  split at stepped
  · cases stepped
    exact informed
  split at stepped
  · cases stepped
    refine ⟨informed.consistent, ?_⟩
    intro token member
    rw [newline, Array.toList_push, List.mem_append, List.mem_singleton] at member
    rcases member with earlier | last
    · exact informed.tokens token earlier
    · rw [last]
      exact .nil
  split at stepped
  · exact informed.take stepped
  · cases stepped
    exact ⟨informed.consistent, informed.tokens⟩

theorem Informed.steps {lexer after : Lexer} {lexemes : List Lexeme} (informed : lexer.Informed)
    (stepped : lexemes.foldlM Lexer.step lexer = .ok after) : after.Informed := by
  induction lexemes generalizing lexer with
  | nil =>
      cases stepped
      exact informed
  | cons lexeme rest inductionHypothesis =>
      rw [List.foldlM_cons] at stepped
      obtain ⟨next, first, others⟩ := bindOk stepped
      exact inductionHypothesis (informed.step first) others

end Lexer

/-- The tokens of a source text only name what the interner knows. -/
theorem lex_known {source : List Char} {tokens : List Token} {interner : Interner}
    (done : (lex Interner.empty source).value = .ok (tokens, interner)) :
    interner.Consistent ∧ ∀ token ∈ tokens, Known interner token.names := by
  unfold lex at done
  dsimp only at done
  split at done
  · cases done
  · rename_i lexed names log line onLine scanned
    split at done
    · cases done
    · cases done
      have informed := Lexer.Informed.steps ⟨Interner.empty_consistent, by simp [Lexer.start]⟩
        scanned
      refine ⟨informed.consistent, ?_⟩
      intro token member
      rw [Array.toList_push, List.mem_append, List.mem_singleton] at member
      rcases member with earlier | last
      · exact informed.tokens token earlier
      · rw [last]
        exact .nil

/-- The tokens that are left only name what the interner knows. -/
def TokenStream.Informed (interner : Interner) (stream : TokenStream) : Prop :=
  ∀ token ∈ stream.pending, Known interner token.names

namespace TokenStream.Informed

variable {interner : Interner} {stream : TokenStream}

theorem advance (informed : Informed interner stream) : Informed interner stream.advance := by
  intro token member
  apply informed token
  unfold TokenStream.advance at member
  split at member
  · exact member
  · rename_i first rest pending
    rw [pending]
    exact List.mem_cons_of_mem _ member

theorem eatComma (informed : Informed interner stream) :
    Informed interner stream.eatComma.2 := by
  unfold TokenStream.eatComma
  split
  · exact informed.advance
  · exact informed

theorem peek (informed : Informed interner stream) {token : Token}
    (next : stream.peek = some token) : Known interner token.names :=
  informed token (List.mem_of_head? next)

theorem mono {after : Interner} (informed : Informed interner stream)
    (grown : interner.size ≤ after.size) : Informed after stream :=
  fun token member => (informed token member).mono grown

end TokenStream.Informed

theorem Token.operand?_names {token : Token} {operand : Operand}
    (found : token.operand? = some operand) : operand.names = token.names := by
  cases token with
  | identifier | register | integer | char | string =>
      cases found
      rfl
  | directive | comma | endOfLine | endOfFile => cases found

section Parsing

variable {interner : Interner} {line : Nat} {stream rest : TokenStream}

open TokenStream (Informed)

theorem parseOperand_known {context : String} {operand : Operand}
    (informed : Informed interner stream)
    (parsed : parseOperand interner line context stream = .ok (operand, rest)) :
    Known interner operand.names ∧ Informed interner rest := by
  unfold parseOperand at parsed
  split at parsed
  · cases parsed
  · rename_i token next
    split at parsed
    · rename_i found token
      cases parsed
      rw [Token.operand?_names token]
      exact ⟨informed.peek next, informed.advance⟩
    · obtain ⟨_, _, thrown⟩ := bindOk parsed
      cases thrown

theorem parseOperands_known {opcode : Opcode} {expected : List OperandKind} {operandNumber : Nat}
    {operands : List Operand} (informed : Informed interner stream)
    (parsed : parseOperands interner line opcode expected operandNumber stream =
      .ok (operands, rest)) :
    (∀ operand ∈ operands, Known interner operand.names) ∧ Informed interner rest := by
  induction expected generalizing operandNumber stream operands with
  | nil =>
      cases parsed
      exact ⟨by simp, informed⟩
  | cons kind kinds inductionHypothesis =>
      unfold parseOperands at parsed
      obtain ⟨⟨operand, after⟩, first, parsed⟩ := bindOk parsed
      obtain ⟨known, left⟩ := parseOperand_known informed.eatComma first
      dsimp only at parsed
      split at parsed
      · obtain ⟨⟨others, last⟩, found, returned⟩ := bindOk parsed
        cases returned
        obtain ⟨knownOthers, leftOthers⟩ := inductionHypothesis left found
        refine ⟨?_, leftOthers⟩
        intro other member
        rcases List.mem_cons.mp member with same | later
        · rw [same]
          exact known
        · exact knownOthers other later
      · cases parsed

theorem Operands.ofList_known {operands : List Operand}
    (known : ∀ operand ∈ operands, Known interner operand.names) :
    Known interner (ofList operands).names := by
  match operands, known with
  | [], _ => exact .append .nil .nil
  | [first], known => exact .append (known first (by simp)) .nil
  | first :: second :: _, known => exact .append (known first (by simp)) (known second (by simp))

theorem parseInstruction_known {opcode : Opcode} {content : Line}
    (informed : Informed interner stream)
    (parsed : parseInstruction interner line opcode stream = .ok (content, rest)) :
    Known interner content.names ∧ Informed interner rest := by
  obtain ⟨⟨operands, after⟩, found, returned⟩ := bindOk parsed
  cases returned
  obtain ⟨known, left⟩ := parseOperands_known informed found
  exact ⟨Operands.ofList_known known, left⟩

theorem parseDirective_known {directive : Directive} {content : Line}
    (informed : Informed interner stream)
    (parsed : parseDirective interner line directive stream = .ok (content, rest)) :
    Known interner content.names ∧ Informed interner rest := by
  unfold parseDirective at parsed
  split at parsed
  · obtain ⟨⟨first, after⟩, found, parsed⟩ := bindOk parsed
    obtain ⟨knownFirst, left⟩ := parseOperand_known informed found
    dsimp only at parsed
    split at parsed
    · obtain ⟨⟨second, last⟩, foundSecond, returned⟩ := bindOk parsed
      obtain ⟨knownSecond, leftSecond⟩ := parseOperand_known left.eatComma foundSecond
      cases returned
      exact ⟨.append knownFirst knownSecond, leftSecond⟩
    · cases parsed
      exact ⟨.append knownFirst .nil, left.eatComma⟩
  · cases parsed
    exact ⟨.append .nil .nil, informed⟩

/-- The names of an item, with an interner that knows them and forgets none. -/
def Item.Known (interner following : Interner) (rest : TokenStream) : Item → Prop
  | .line content => following.Consistent ∧ Source.Known following content.names ∧
      Informed following rest ∧ interner.size ≤ following.size
  | .lineEnd | .strayRegister _ => following = interner ∧ Informed interner rest

theorem parseIdentifier_known {following : Interner} {name : Symbol} {item : Item}
    (consistent : interner.Consistent) (informed : Informed interner stream)
    (parsed : parseIdentifier interner line name stream = .ok ((item, following), rest)) :
    item.Known interner following rest := by
  obtain ⟨text, _, parsed⟩ := bindOk parsed
  split at parsed
  · rename_i label _
    cases parsed
    obtain ⟨extended, knows, grown⟩ := Interner.intern_knows consistent label
    exact ⟨extended, .singleton knows, informed.advance.mono grown, grown⟩
  · split at parsed
    · obtain ⟨⟨content, after⟩, found, returned⟩ := bindOk parsed
      cases returned
      obtain ⟨known, left⟩ := parseInstruction_known informed.advance found
      exact ⟨consistent, known, left, Nat.le_refl _⟩
    · cases parsed

theorem parseItem_known {following : Interner} {token : Token} {item : Item}
    (consistent : interner.Consistent) (informed : Informed interner stream)
    (parsed : parseItem interner line token stream = .ok ((item, following), rest)) :
    item.Known interner following rest := by
  unfold parseItem at parsed
  split at parsed
  · cases parsed
    exact ⟨rfl, informed.advance⟩
  · cases parsed
    exact ⟨rfl, informed.advance⟩
  · obtain ⟨⟨content, after⟩, found, returned⟩ := bindOk parsed
    cases returned
    obtain ⟨known, left⟩ := parseDirective_known informed.advance found
    exact ⟨consistent, known, left, Nat.le_refl _⟩
  · exact parseIdentifier_known consistent informed parsed
  all_goals
    obtain ⟨_, _, thrown⟩ := bindOk parsed
    cases thrown

end Parsing

/-- A parser knows the names of the lines that it finds, and forgets none. -/
theorem outline_known {interner : Interner} {line : Nat} {stream : TokenStream}
    (consistent : interner.Consistent) (informed : stream.Informed interner) :
    interner.size ≤ (outline interner line stream).interner.size ∧
      ∀ found ∈ (outline interner line stream).lines,
        Known (outline interner line stream).interner found.content.names := by
  induction interner, line, stream using outline_induction with
  | exhausted interner line stream next => simp [outline_none next]
  | ended interner line stream next => simp [outline_end next]
  | stopped interner line stream token reason next more parsed =>
      simp [outline_stop next more parsed]
  | follows interner line stream token item following rest next more parsed inductionHypothesis =>
      have known := parseItem_known consistent informed parsed
      rw [outline_item next more parsed, Outline.behind]
      cases item with
      | line content =>
          obtain ⟨consistentLater, knownHere, left, grown⟩ := known
          obtain ⟨grownLast, others⟩ := inductionHypothesis consistentLater left
          refine ⟨Nat.le_trans grown grownLast, ?_⟩
          intro found member
          rcases List.mem_cons.mp member with first | later
          · rw [first]
            exact knownHere.mono grownLast
          · exact others found later
      | lineEnd | strayRegister =>
          obtain ⟨rfl, left⟩ := known
          exact inductionHypothesis consistent left

/-- Every name of a program that was read has a text. -/
theorem read_known {capacity : Nat} {source : String} {program : Program} {interner : Interner}
    (done : (read capacity source).value = .ok (program, interner)) :
    ∀ line ∈ program.toList, Known interner line.content.names := by
  obtain ⟨tokens, names, lexed, _, rfl, contents⟩ := read_outline done
  obtain ⟨consistent, known⟩ := lex_known lexed
  have informed : TokenStream.Informed names (.ofList tokens) := known
  rw [contents]
  exact (outline_known consistent informed).2

end Source

end RegisterMachine
