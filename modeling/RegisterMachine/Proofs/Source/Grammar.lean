/-
This file gives the grammar of the items of a program: which tokens each kind of item is made of,
and what may follow it. The parser reads an item exactly if the grammar allows it.
-/

import RegisterMachine.Proofs.Isa.Opcode
import RegisterMachine.Proofs.Source.Spelling

namespace RegisterMachine

namespace Source

theorem labelName?_eq_some {text label : String} :
    labelName? text = some label ↔ text = label ++ ":" := by
  unfold labelName?
  constructor
  · intro found
    split at found
    · rename_i colon
      obtain ⟨front, whole⟩ := List.getLast?_eq_some_iff.mp colon
      rw [whole, List.dropLast_concat] at found
      have characters : String.ofList text.toList = text := String.ofList_toList
      rw [← Option.some.inj found, ← characters, whole, String.ofList_append]
    · cases found
  · rintro rfl
    have whole : (label ++ ":").toList = label.toList ++ [':'] := String.toList_append
    rw [whole, if_pos List.getLast?_concat, List.dropLast_concat, String.ofList_toList]

/-- A mnemonic is no label, in whatever case it is written. -/
theorem labelName?_mnemonic {text : String} {opcode : Opcode}
    (mnemonic : Text.lowercase text = opcode.mnemonic) : labelName? text = none := by
  cases found : labelName? text with
  | none => rfl
  | some label =>
      have colon : (Text.lowercase text).toList.getLast? = some ':' := by
        have whole : (label ++ ":").toList = label.toList ++ [':'] := String.toList_append
        rw [labelName?_eq_some.mp found, Text.lowercase, String.toList_ofList, whole,
          List.map_append]
        exact List.getLast?_concat
      rw [mnemonic] at colon
      exact absurd colon opcode.mnemonic_getLast?

/-- A comma that may be left out. -/
inductive OptionalComma : List Token → Prop
  | absent : OptionalComma []
  | present : OptionalComma [.comma]

/-- Operands of the expected kinds as they are written, each after a comma or not. -/
inductive OperandsWritten : List OperandKind → List Operand → List Token → Prop
  | done : OperandsWritten [] [] []
  | more {kind : OperandKind} {kinds : List OperandKind} {operand : Operand}
      {operands : List Operand} {comma tokens : List Token} {token : Token}
      (separator : OptionalComma comma) (stands : token.operand? = some operand)
      (accepted : kind.accepts operand.kind) (rest : OperandsWritten kinds operands tokens) :
      OperandsWritten (kind :: kinds) (operand :: operands) (comma ++ token :: tokens)

/-- A register, a name or a literal comes first. -/
def StartsOperand (tokens : List Token) : Prop :=
  ((tokens.head?).bind Token.operand?).isSome

/-- An item of a program as it is written; a label has its name without the colon. -/
inductive Phrase where
  | lineEnd
  | strayRegister (register : Register)
  | label (name : String)
  | instruction (content : Instruction)
  | directive (named : Directive) (operands : Operands)

namespace Phrase

/-- The phrase stands for the tokens that it takes if the others follow. A directive takes as many
operands as it can, two at most. -/
inductive Reads (interner : Interner) : Phrase → (taken following : List Token) → Prop
  | lineEnd (following : List Token) : Reads interner .lineEnd [.endOfLine] following
  | strayRegister (register : Register) (following : List Token) :
      Reads interner (.strayRegister register) [.register register] following
  | label {name : Symbol} {text : String} (following : List Token)
      (spelled : interner.Spells name (text ++ ":")) :
      Reads interner (.label text) [.identifier name] following
  | instruction {name : Symbol} {text : String} {content : Instruction}
      {operands : List Operand} {tokens : List Token} (following : List Token)
      (spelled : interner.Spells name text)
      (mnemonic : Text.lowercase text = content.opcode.mnemonic)
      (written : OperandsWritten content.opcode.slots operands tokens)
      (filled : content.operands.toList =
        operands ++ List.replicate (2 - content.opcode.arity) .absent) :
      Reads interner (.instruction content) (.identifier name :: tokens) following
  | bareDirective {following : List Token} (named : Directive)
      (noOperand : ¬StartsOperand following) :
      Reads interner (.directive named ⟨.absent, .absent⟩) [.directive named] following
  | directive {operand : Operand} {token : Token} {following : List Token} (named : Directive)
      (stands : token.operand? = some operand) (noComma : following.head? ≠ some .comma)
      (noOperand : ¬StartsOperand following) :
      Reads interner (.directive named ⟨operand, .absent⟩) [.directive named, token] following
  | pairedDirective {first second : Operand} {firstToken secondToken : Token}
      {comma : List Token} (named : Directive) (following : List Token)
      (standsFirst : firstToken.operand? = some first) (separator : OptionalComma comma)
      (standsSecond : secondToken.operand? = some second) :
      Reads interner (.directive named ⟨first, second⟩)
        (.directive named :: firstToken :: (comma ++ [secondToken])) following

/-- What the parser makes of a phrase. -/
def item (interner : Interner) : Phrase → Item × Interner
  | lineEnd => (.lineEnd, interner)
  | strayRegister register => (.strayRegister register, interner)
  | label text => (.line (.label (interner.intern text).1), (interner.intern text).2)
  | instruction content => (.line (.instruction content), interner)
  | directive named operands => (.line (.directive named operands), interner)

end Phrase

/-- Operands fill the slots of an instruction, and the other places are empty. -/
theorem Operands.ofList_toList {operands : List Operand} (few : operands.length ≤ 2) :
    (ofList operands).toList = operands ++ List.replicate (2 - operands.length) .absent := by
  match operands, few with
  | [], _ | [_], _ | [_, _], _ => rfl

theorem Operands.toList_injective {first second : Operands}
    (same : first.toList = second.toList) : first = second := by
  cases first
  cases second
  simpa [toList] using same

theorem OperandsWritten.length {kinds : List OperandKind} {operands : List Operand}
    {tokens : List Token} (written : OperandsWritten kinds operands tokens) :
    operands.length = kinds.length := by
  induction written with
  | done => rfl
  | more _ _ _ _ inductionHypothesis => rw [List.length_cons, List.length_cons, inductionHypothesis]

/-- The operands of an instruction with the empty places behind them. -/
theorem OperandsWritten.filled {opcode : Opcode} {operands : List Operand} {tokens : List Token}
    (written : OperandsWritten opcode.slots operands tokens) :
    (Operands.ofList operands).toList =
      operands ++ List.replicate (2 - opcode.arity) .absent := by
  have count : operands.length = opcode.arity := written.length
  rw [← count]
  exact Operands.ofList_toList (count.trans_le opcode.arity_le)

section Completeness

variable {interner : Interner} {following : List Token}

theorem parseOperand_ok {token : Token} {operand : Operand}
    (stands : token.operand? = some operand) (line : Nat) (context : String) (position : Nat) :
    parseOperand interner line context ⟨token :: following, position⟩ =
      .ok (operand, ⟨following, position + 1⟩) := by
  simp only [parseOperand, TokenStream.peek, List.head?_cons, stands]
  rfl

/-- A comma before an operand is taken, and where there is none nothing is. -/
theorem eatComma_ok {comma : List Token} (separator : OptionalComma comma) {token : Token}
    {operand : Operand} (stands : token.operand? = some operand) (position : Nat) :
    (TokenStream.mk (comma ++ token :: following) position).eatComma =
      (decide (comma = [.comma]), ⟨token :: following, position + comma.length⟩) := by
  cases separator with
  | absent =>
      have other : token ≠ .comma := by
        rintro rfl
        cases stands
      simp [TokenStream.eatComma, TokenStream.peek, other]
  | present => simp [TokenStream.eatComma, TokenStream.peek, TokenStream.advance]

theorem parseOperands_ok {kinds : List OperandKind} {operands : List Operand}
    {tokens : List Token} (written : OperandsWritten kinds operands tokens) (line : Nat)
    (opcode : Opcode) (number position : Nat) :
    parseOperands interner line opcode kinds number ⟨tokens ++ following, position⟩ =
      .ok (operands, ⟨following, position + tokens.length⟩) := by
  induction written generalizing number position with
  | done => rfl
  | more separator stands accepted rest inductionHypothesis =>
      unfold parseOperands
      rw [List.append_assoc, List.cons_append, eatComma_ok separator stands,
        parseOperand_ok stands, okBind]
      dsimp only
      rw [if_pos accepted, inductionHypothesis, okBind, pureOk]
      simp only [List.length_append, List.length_cons]
      congr 3
      omega

theorem atOperand_iff (tokens : List Token) (position : Nat) :
    (TokenStream.mk tokens position).atOperand = true ↔ StartsOperand tokens := Iff.rfl

theorem startsOperand_cons {token : Token} {operand : Operand}
    (stands : token.operand? = some operand) : StartsOperand (token :: following) := by
  rw [StartsOperand, List.head?_cons, Option.bind_some, stands]
  rfl

/-- Without a comma in front nothing is eaten. -/
theorem eatComma_none (noComma : following.head? ≠ some .comma) (position : Nat) :
    (TokenStream.mk following position).eatComma = (false, ⟨following, position⟩) :=
  if_neg noComma

theorem parseInstruction_ok {content : Instruction} {operands : List Operand}
    {tokens : List Token}
    (written : OperandsWritten content.opcode.slots operands tokens)
    (filled : content.operands.toList =
      operands ++ List.replicate (2 - content.opcode.arity) .absent) (line position : Nat) :
    parseInstruction interner line content.opcode ⟨tokens ++ following, position⟩ =
      .ok (.instruction content, ⟨following, position + tokens.length⟩) := by
  have places : Operands.ofList operands = content.operands := by
    apply Operands.toList_injective
    rw [filled, written.filled]
  rw [parseInstruction, parseOperands_ok written, okBind]
  dsimp only
  rw [places]
  rfl

theorem parseDirective_bare (noOperand : ¬StartsOperand following) (named : Directive)
    (line position : Nat) :
    parseDirective interner line named ⟨following, position⟩ =
      .ok (.directive named ⟨.absent, .absent⟩, ⟨following, position⟩) :=
  if_neg noOperand

theorem parseDirective_one {token : Token} {operand : Operand}
    (stands : token.operand? = some operand) (noComma : following.head? ≠ some .comma)
    (noOperand : ¬StartsOperand following) (named : Directive) (line position : Nat) :
    parseDirective interner line named ⟨token :: following, position⟩ =
      .ok (.directive named ⟨operand, .absent⟩, ⟨following, position + 1⟩) := by
  unfold parseDirective
  rw [if_pos ((atOperand_iff _ _).mpr (startsOperand_cons stands)), parseOperand_ok stands, okBind]
  dsimp only
  rw [eatComma_none noComma]
  exact if_neg noOperand

theorem parseDirective_two {first second : Operand} {firstToken secondToken : Token}
    {comma : List Token} (standsFirst : firstToken.operand? = some first)
    (separator : OptionalComma comma) (standsSecond : secondToken.operand? = some second)
    (named : Directive) (line position : Nat) :
    parseDirective interner line named
        ⟨firstToken :: (comma ++ secondToken :: following), position⟩ =
      .ok (.directive named ⟨first, second⟩, ⟨following, position + 1 + comma.length + 1⟩) := by
  unfold parseDirective
  rw [if_pos ((atOperand_iff _ _).mpr (startsOperand_cons standsFirst)),
    parseOperand_ok standsFirst, okBind]
  dsimp only
  rw [eatComma_ok separator standsSecond]
  dsimp only
  rw [(atOperand_iff _ _).mpr (startsOperand_cons standsSecond), Bool.or_true, if_pos rfl,
    parseOperand_ok standsSecond]
  rfl

/-- What the grammar allows the parser reads. -/
theorem Phrase.Reads.parse {phrase : Phrase} {taken : List Token}
    (reads : phrase.Reads interner taken following) (line position : Nat) :
    ∃ token, taken.head? = some token ∧ token ≠ .endOfFile ∧
      parseItem interner line token ⟨taken ++ following, position⟩ =
        .ok (phrase.item interner, ⟨following, position + taken.length⟩) := by
  cases reads with
  | lineEnd | strayRegister => exact ⟨_, rfl, nofun, rfl⟩
  | label _ spelled =>
      refine ⟨_, rfl, nofun, ?_⟩
      rw [parseItem]
      simp only [parseIdentifier]
      rw [spelled.resolve, Abort.liftOk, okBind, labelName?_eq_some.mpr rfl]
      rfl
  | instruction _ spelled mnemonic written filled =>
      refine ⟨_, rfl, nofun, ?_⟩
      rw [parseItem]
      simp only [parseIdentifier]
      rw [spelled.resolve, Abort.liftOk, okBind, labelName?_mnemonic mnemonic]
      dsimp only
      rw [Opcode.ofMnemonic?_eq_some.mpr mnemonic]
      dsimp only [TokenStream.advance, List.cons_append]
      rw [parseInstruction_ok written filled, List.length_cons, okBind]
      simp only [pureOk, Nat.add_assoc, Nat.add_comm 1]
      rfl
  | bareDirective named noOperand =>
      refine ⟨_, rfl, nofun, ?_⟩
      simp only [parseItem, TokenStream.advance, List.singleton_append]
      rw [parseDirective_bare noOperand]
      rfl
  | directive named stands noComma noOperand =>
      refine ⟨_, rfl, nofun, ?_⟩
      simp only [parseItem, TokenStream.advance, List.cons_append, List.nil_append]
      rw [parseDirective_one stands noComma noOperand]
      rfl
  | pairedDirective named _ standsFirst separator standsSecond =>
      refine ⟨_, rfl, nofun, ?_⟩
      simp only [parseItem, TokenStream.advance, List.cons_append, List.append_assoc,
        List.nil_append]
      rw [parseDirective_two standsFirst separator standsSecond, okBind]
      simp only [pureOk, List.length_cons, List.length_append, List.length_nil]
      congr 3
      omega

end Completeness

section Soundness

variable {interner : Interner} {line : Nat} {stream rest : TokenStream}

theorem advance_pending {token : Token} (next : stream.peek = some token) :
    stream.pending = token :: stream.advance.pending := by
  obtain ⟨pending, position⟩ := stream
  cases pending with
  | nil => cases next
  | cons first others =>
      obtain rfl : first = token := Option.some.inj next
      rfl

theorem parseOperand_stands {context : String} {operand : Operand}
    (parsed : parseOperand interner line context stream = .ok (operand, rest)) :
    ∃ token, token.operand? = some operand ∧ stream.pending = token :: rest.pending := by
  unfold parseOperand at parsed
  split at parsed
  · cases parsed
  · rename_i token next
    split at parsed
    · rename_i stands
      cases parsed
      exact ⟨token, stands, advance_pending next⟩
    · obtain ⟨_, _, thrown⟩ := bindOk parsed
      cases thrown

/-- What is eaten is a comma or nothing, and nothing only where there is no comma. -/
theorem eatComma_separator (stream : TokenStream) :
    ∃ comma, OptionalComma comma ∧ stream.pending = comma ++ stream.eatComma.2.pending ∧
      (stream.eatComma.1 = false →
        comma = [] ∧ stream.eatComma.2.pending.head? ≠ some .comma) := by
  unfold TokenStream.eatComma
  split
  · rename_i next
    exact ⟨[.comma], .present, advance_pending next, nofun⟩
  · rename_i other
    exact ⟨[], .absent, rfl, fun _ => ⟨rfl, other⟩⟩

theorem parseOperands_written {opcode : Opcode} {kinds : List OperandKind} {number : Nat}
    {operands : List Operand}
    (parsed : parseOperands interner line opcode kinds number stream = .ok (operands, rest)) :
    ∃ tokens, OperandsWritten kinds operands tokens ∧ stream.pending = tokens ++ rest.pending := by
  induction kinds generalizing number stream operands with
  | nil =>
      cases parsed
      exact ⟨[], .done, rfl⟩
  | cons kind kinds inductionHypothesis =>
      unfold parseOperands at parsed
      obtain ⟨⟨operand, after⟩, found, parsed⟩ := bindOk parsed
      obtain ⟨comma, separator, front, _⟩ := eatComma_separator stream
      obtain ⟨token, stands, pending⟩ := parseOperand_stands found
      dsimp only at parsed
      split at parsed
      · rename_i accepted
        obtain ⟨⟨others, last⟩, second, returned⟩ := bindOk parsed
        cases returned
        obtain ⟨tokens, written, left⟩ := inductionHypothesis second
        refine ⟨comma ++ token :: tokens, .more separator stands accepted written, ?_⟩
        rw [front, pending, left, List.append_assoc, List.cons_append]
      · cases parsed

theorem parseInstruction_reads {opcode : Opcode} {content : Line}
    (parsed : parseInstruction interner line opcode stream = .ok (content, rest)) :
    ∃ instruction operands tokens, content = .instruction instruction ∧
      instruction.opcode = opcode ∧ OperandsWritten opcode.slots operands tokens ∧
      instruction.operands.toList = operands ++ List.replicate (2 - opcode.arity) .absent ∧
      stream.pending = tokens ++ rest.pending := by
  obtain ⟨⟨operands, after⟩, found, returned⟩ := bindOk parsed
  cases returned
  obtain ⟨tokens, written, pending⟩ := parseOperands_written found
  exact ⟨_, operands, tokens, rfl, rfl, written, written.filled, pending⟩

theorem parseDirective_reads {named : Directive} {content : Line}
    (parsed : parseDirective interner line named stream = .ok (content, rest)) :
    ∃ operands taken, content = .directive named operands ∧
      (Phrase.directive named operands).Reads interner (.directive named :: taken) rest.pending ∧
      stream.pending = taken ++ rest.pending := by
  unfold parseDirective at parsed
  split at parsed
  · obtain ⟨⟨first, after⟩, found, parsed⟩ := bindOk parsed
    obtain ⟨firstToken, standsFirst, pending⟩ := parseOperand_stands found
    obtain ⟨comma, separator, front, bare⟩ := eatComma_separator after
    dsimp only at parsed
    split at parsed
    · obtain ⟨⟨second, last⟩, found, returned⟩ := bindOk parsed
      obtain ⟨secondToken, standsSecond, left⟩ := parseOperand_stands found
      cases returned
      refine ⟨⟨first, second⟩, firstToken :: (comma ++ [secondToken]), rfl,
        .pairedDirective named _ standsFirst separator standsSecond, ?_⟩
      rw [pending, front, left, List.cons_append, List.append_assoc]
      rfl
    · rename_i neither
      cases parsed
      rw [Bool.or_eq_true, not_or, Bool.not_eq_true] at neither
      obtain ⟨noComma, noOperand⟩ := neither
      obtain ⟨nothing, otherNext⟩ := bare noComma
      refine ⟨⟨first, .absent⟩, [firstToken], rfl,
        .directive named standsFirst otherNext noOperand, ?_⟩
      rw [pending, front, nothing]
      rfl
  · rename_i noOperand
    cases parsed
    exact ⟨.none, [], rfl, .bareDirective named noOperand, rfl⟩

theorem parseIdentifier_reads {following : Interner} {name : Symbol} {item : Item}
    (next : stream.peek = some (.identifier name))
    (parsed : parseIdentifier interner line name stream = .ok ((item, following), rest)) :
    ∃ phrase taken, Phrase.Reads interner phrase taken rest.pending ∧
      stream.pending = taken ++ rest.pending ∧ (item, following) = phrase.item interner := by
  have front := advance_pending next
  obtain ⟨text, resolved, parsed⟩ := bindOk parsed
  have spelled : interner.Spells name text := .of_resolve (mapErrorOk resolved)
  split at parsed
  · rename_i label colon
    cases parsed
    rw [labelName?_eq_some.mp colon] at spelled
    exact ⟨.label label, [.identifier name], .label _ spelled, front, rfl⟩
  · split at parsed
    · rename_i opcode mnemonic
      obtain ⟨⟨content, after⟩, found, returned⟩ := bindOk parsed
      cases returned
      obtain ⟨instruction, operands, tokens, same, rfl, written, filled, pending⟩ :=
        parseInstruction_reads found
      refine ⟨.instruction instruction, .identifier name :: tokens,
        .instruction _ spelled (Opcode.ofMnemonic?_eq_some.mp mnemonic) written filled, ?_, ?_⟩
      · rw [front, pending, List.cons_append]
      · rw [same]
        rfl
    · cases parsed

/-- What the parser reads the grammar allows. -/
theorem parseItem_reads {following : Interner} {token : Token} {item : Item}
    (next : stream.peek = some token)
    (parsed : parseItem interner line token stream = .ok ((item, following), rest)) :
    ∃ phrase taken, Phrase.Reads interner phrase taken rest.pending ∧
      stream.pending = taken ++ rest.pending ∧ (item, following) = phrase.item interner := by
  have front := advance_pending next
  unfold parseItem at parsed
  split at parsed
  · cases parsed
    exact ⟨.lineEnd, [.endOfLine], .lineEnd _, front, rfl⟩
  · rename_i register
    cases parsed
    exact ⟨.strayRegister register, [.register register], .strayRegister register _, front, rfl⟩
  · rename_i named
    obtain ⟨⟨content, after⟩, found, returned⟩ := bindOk parsed
    cases returned
    obtain ⟨operands, taken, same, reads, pending⟩ := parseDirective_reads found
    refine ⟨.directive named operands, .directive named :: taken, reads, ?_, ?_⟩
    · rw [front, pending, List.cons_append]
    · rw [same]
      rfl
  · exact parseIdentifier_reads next parsed
  all_goals
    obtain ⟨_, _, thrown⟩ := bindOk parsed
    cases thrown

end Soundness

end Source

end RegisterMachine
