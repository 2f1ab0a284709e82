/-
This file compares two parsers that know the same texts by different symbols. They find the same
lines and stop for the same reasons, wherever in their sources the lines stand.
-/

import RegisterMachine.Proofs.Source.Split

namespace RegisterMachine

/-- Both computations give related values, or both stop with related errors. -/
inductive Corresponds {α β ε ζ : Type} (values : α → β → Prop) (errors : ε → ζ → Prop) :
    Except ε α → Except ζ β → Prop
  | ok {first : α} {second : β} (related : values first second) :
      Corresponds values errors (.ok first) (.ok second)
  | error {first : ε} {second : ζ} (related : errors first second) :
      Corresponds values errors (.error first) (.error second)

theorem Corresponds.bind {α β γ δ ε ζ : Type} {values : α → β → Prop} {results : γ → δ → Prop}
    {errors : ε → ζ → Prop} {first : Except ε α} {second : Except ζ β} {next : α → Except ε γ}
    {other : β → Except ζ δ} (begins : Corresponds values errors first second)
    (goesOn : ∀ value result, values value result →
      Corresponds results errors (next value) (other result)) :
    Corresponds results errors (first >>= next) (second >>= other) := by
  cases begins with
  | ok related => exact goesOn _ _ related
  | error related => exact .error related

theorem Corresponds.mapError {α β δ ε ζ η : Type} {values : α → β → Prop} {errors : ε → ζ → Prop}
    {changed : δ → η → Prop} {first : Except ε α} {second : Except ζ β} {change : ε → δ}
    {changeOther : ζ → η} (found : Corresponds values errors first second)
    (changes : ∀ reason other, errors reason other →
      changed (change reason) (changeOther other)) :
    Corresponds values changed (first.mapError change) (second.mapError changeOther) := by
  cases found with
  | ok related => exact .ok related
  | error related => exact .error (changes _ _ related)

namespace Source

open Interner (Extends Sound)

/-- Symbols of two interners that stand for the same text. -/
def SameText (first second : Interner) (name other : Symbol) : Prop :=
  ∃ text, first.Spells name text ∧ second.Spells other text

theorem SameText.mono {first second later last : Interner} {name other : Symbol}
    (same : SameText first second name other) (grown : Extends first later)
    (grownOther : Extends second last) : SameText later last name other := by
  obtain ⟨text, spelled, spelledOther⟩ := same
  exact ⟨text, grown name text spelled, grownOther other text spelledOther⟩

section Alike

variable (first second : Interner)

/-- Tokens that differ only in the symbols of their texts. -/
inductive Token.Alike : Token → Token → Prop
  | identifier {name other : Symbol} (same : SameText first second name other) :
      Alike (.identifier name) (.identifier other)
  | string {name other : Symbol} (same : SameText first second name other) :
      Alike (.string name) (.string other)
  | plain (token : Token) (unnamed : token.names = []) : Alike token token

inductive Operand.Alike : Operand → Operand → Prop
  | symbol {name other : Symbol} (same : SameText first second name other) :
      Alike (.symbol name) (.symbol other)
  | string {name other : Symbol} (same : SameText first second name other) :
      Alike (.string name) (.string other)
  | plain (operand : Operand) (unnamed : operand.names = []) : Alike operand operand

structure Operands.Alike (operands others : Operands) : Prop where
  front : Operand.Alike first second operands.first others.first
  back : Operand.Alike first second operands.second others.second

inductive Line.Alike : Line → Line → Prop
  | label {name other : Symbol} (same : SameText first second name other) :
      Alike (.label name) (.label other)
  | instruction {opcode : Opcode} {operands others : Operands}
      (same : Operands.Alike first second operands others) :
      Alike (.instruction ⟨opcode, operands⟩) (.instruction ⟨opcode, others⟩)
  | directive {named : Directive} {operands others : Operands}
      (same : Operands.Alike first second operands others) :
      Alike (.directive named operands) (.directive named others)

inductive Item.Alike : Item → Item → Prop
  | line {content other : Line} (same : Line.Alike first second content other) :
      Alike (.line content) (.line other)
  | lineEnd : Alike .lineEnd .lineEnd
  | strayRegister (register : Register) : Alike (.strayRegister register) (.strayRegister register)

/-- Lines alike, the second one further down in its source. -/
structure NumberedLine.Alike (distance : Nat) (line other : NumberedLine) : Prop where
  number : other.number = line.number + distance
  content : Line.Alike first second line.content other.content

/-- Tokens alike one by one; how many were consumed before does not matter. -/
def TokenStream.Alike (stream other : TokenStream) : Prop :=
  List.Forall₂ (Token.Alike first second) stream.pending other.pending

end Alike

namespace ParseError

/-- The same error further down in the source. -/
def shifted (distance : Nat) : ParseError → ParseError
  | unknownMnemonic line name => .unknownMnemonic (line + distance) name
  | unexpectedToken line found => .unexpectedToken (line + distance) found
  | expectedOperand line context found => .expectedOperand (line + distance) context found
  | operandKindMismatch line opcode operand expected found =>
      .operandKindMismatch (line + distance) opcode operand expected found

/-- The second parser stops for the same reason further down. -/
def Shifts (distance : Nat) (reason other : Abort ParseError) : Prop :=
  other = reason.map (shifted distance)

end ParseError

section Growth

variable {first second later last : Interner}

theorem Token.Alike.mono {token other : Token} (alike : Token.Alike first second token other)
    (grown : Extends first later) (grownOther : Extends second last) :
    Token.Alike later last token other := by
  cases alike with
  | identifier same => exact .identifier (same.mono grown grownOther)
  | string same => exact .string (same.mono grown grownOther)
  | plain token unnamed => exact .plain token unnamed

theorem Operand.Alike.mono {operand other : Operand}
    (alike : Operand.Alike first second operand other) (grown : Extends first later)
    (grownOther : Extends second last) : Operand.Alike later last operand other := by
  cases alike with
  | symbol same => exact .symbol (same.mono grown grownOther)
  | string same => exact .string (same.mono grown grownOther)
  | plain operand unnamed => exact .plain operand unnamed

theorem Operands.Alike.mono {operands others : Operands}
    (alike : Operands.Alike first second operands others) (grown : Extends first later)
    (grownOther : Extends second last) : Operands.Alike later last operands others :=
  ⟨alike.front.mono grown grownOther, alike.back.mono grown grownOther⟩

theorem Line.Alike.mono {line other : Line} (alike : Line.Alike first second line other)
    (grown : Extends first later) (grownOther : Extends second last) :
    Line.Alike later last line other := by
  cases alike with
  | label same => exact .label (same.mono grown grownOther)
  | instruction same => exact .instruction (same.mono grown grownOther)
  | directive same => exact .directive (same.mono grown grownOther)

theorem NumberedLine.Alike.mono {distance : Nat} {line other : NumberedLine}
    (alike : NumberedLine.Alike first second distance line other) (grown : Extends first later)
    (grownOther : Extends second last) : NumberedLine.Alike later last distance line other :=
  ⟨alike.number, alike.content.mono grown grownOther⟩

theorem TokenStream.Alike.mono {stream other : TokenStream}
    (alike : TokenStream.Alike first second stream other) (grown : Extends first later)
    (grownOther : Extends second last) : TokenStream.Alike later last stream other :=
  alike.imp fun _ _ alike => alike.mono grown grownOther

end Growth

section Composition

variable {first second third : Interner}

theorem SameText.trans {name other last : Symbol} (same : SameText first second name other)
    (next : SameText second third other last) : SameText first third name last := by
  obtain ⟨text, spelled, spelledOther⟩ := same
  obtain ⟨again, spelledAgain, spelledLast⟩ := next
  rw [← spelledOther.unique spelledAgain] at spelledLast
  exact ⟨text, spelled, spelledLast⟩

theorem Operand.Alike.trans {operand other last : Operand}
    (alike : Operand.Alike first second operand other)
    (next : Operand.Alike second third other last) : Operand.Alike first third operand last := by
  cases alike with
  | symbol same =>
      cases next with
      | symbol sameLast => exact .symbol (same.trans sameLast)
      | plain _ unnamed => cases unnamed
  | string same =>
      cases next with
      | string sameLast => exact .string (same.trans sameLast)
      | plain _ unnamed => cases unnamed
  | plain operand unnamed =>
      cases next with
      | symbol | string => cases unnamed
      | plain => exact .plain operand unnamed

theorem Operands.Alike.trans {operands others last : Operands}
    (alike : Operands.Alike first second operands others)
    (next : Operands.Alike second third others last) : Operands.Alike first third operands last :=
  ⟨alike.front.trans next.front, alike.back.trans next.back⟩

theorem Line.Alike.trans {line other last : Line} (alike : Line.Alike first second line other)
    (next : Line.Alike second third other last) : Line.Alike first third line last := by
  cases alike with
  | label same =>
      cases next with
      | label sameLast => exact .label (same.trans sameLast)
  | instruction same =>
      cases next with
      | instruction sameLast => exact .instruction (same.trans sameLast)
  | directive same =>
      cases next with
      | directive sameLast => exact .directive (same.trans sameLast)

end Composition

section Streams

variable {first second : Interner} {stream other : TokenStream}

theorem Token.Alike.operand? {token other : Token} (alike : Token.Alike first second token other) :
    Option.Rel (Operand.Alike first second) token.operand? other.operand? := by
  cases alike with
  | identifier same => exact .some (.symbol same)
  | string same => exact .some (.string same)
  | plain token unnamed =>
      cases token with
      | identifier | string => cases unnamed
      | register named => exact .some (.plain (.register named) rfl)
      | integer value => exact .some (.plain (.integer value) rfl)
      | char byte => exact .some (.plain (.char byte) rfl)
      | directive | comma | endOfLine | endOfFile => exact .none

theorem Token.Alike.describe {token other : Token} (alike : Token.Alike first second token other) :
    token.describe first = other.describe second := by
  cases alike with
  | identifier same =>
      obtain ⟨text, spelled, spelledOther⟩ := same
      rw [Token.describe, Token.describe, spelled.resolve, spelledOther.resolve]
  | string same =>
      obtain ⟨text, spelled, spelledOther⟩ := same
      rw [Token.describe, Token.describe, spelled.resolve, spelledOther.resolve]
  | plain token unnamed =>
      cases token with
      | identifier | string => cases unnamed
      | register | integer | char | directive | comma | endOfLine | endOfFile => rfl

theorem Operand.Alike.kind {operand other : Operand}
    (alike : Operand.Alike first second operand other) : operand.kind = other.kind := by
  cases alike <;> rfl

theorem TokenStream.Alike.peek (alike : TokenStream.Alike first second stream other) :
    Option.Rel (Token.Alike first second) stream.peek other.peek := by
  obtain ⟨pending, position⟩ := stream
  obtain ⟨pendingOther, positionOther⟩ := other
  change List.Forall₂ _ pending pendingOther at alike
  cases alike with
  | nil => exact .none
  | cons same _ => exact .some same

theorem TokenStream.Alike.peek_none (alike : TokenStream.Alike first second stream other)
    (done : stream.peek = none) : other.peek = none := by
  have peek := alike.peek
  rw [done] at peek
  generalize other.peek = next at peek
  cases peek
  rfl

theorem TokenStream.Alike.peek_some (alike : TokenStream.Alike first second stream other)
    {token : Token} (next : stream.peek = some token) :
    ∃ tokenOther, other.peek = some tokenOther ∧ Token.Alike first second token tokenOther := by
  have peek := alike.peek
  rw [next] at peek
  generalize other.peek = nextOther at peek ⊢
  cases peek with
  | some same => exact ⟨_, rfl, same⟩

theorem TokenStream.Alike.advance (alike : TokenStream.Alike first second stream other) :
    TokenStream.Alike first second stream.advance other.advance := by
  obtain ⟨pending, position⟩ := stream
  obtain ⟨pendingOther, positionOther⟩ := other
  change List.Forall₂ _ pending pendingOther at alike
  cases alike with
  | nil => exact .nil
  | cons _ rest => exact rest

/-- Tokens alike are the same, unless they have texts. -/
theorem Token.Alike.eq_iff {token other plain : Token}
    (alike : Token.Alike first second token other) (unnamed : plain.names = []) :
    token = plain ↔ other = plain := by
  cases alike with
  | identifier | string =>
      apply iff_of_false <;>
      · rintro rfl
        cases unnamed
  | plain => exact Iff.rfl

/-- Both parsers find a comma, or neither does. -/
theorem TokenStream.Alike.eatComma (alike : TokenStream.Alike first second stream other) :
    stream.eatComma.1 = other.eatComma.1 ∧
      TokenStream.Alike first second stream.eatComma.2 other.eatComma.2 := by
  have same : stream.peek = some .comma ↔ other.peek = some .comma := by
    have peek := alike.peek
    generalize stream.peek = next, other.peek = nextOther at peek
    cases peek with
    | none => exact Iff.rfl
    | some alike =>
        rw [Option.some.injEq, Option.some.injEq]
        exact alike.eq_iff rfl
  unfold TokenStream.eatComma
  by_cases comma : stream.peek = some .comma
  · rw [if_pos comma, if_pos (same.mp comma)]
    exact ⟨rfl, alike.advance⟩
  · rw [if_neg comma, if_neg (comma ∘ same.mpr)]
    exact ⟨rfl, alike⟩

theorem TokenStream.Alike.atOperand (alike : TokenStream.Alike first second stream other) :
    stream.atOperand = other.atOperand := by
  unfold TokenStream.atOperand
  have peek := alike.peek
  generalize stream.peek = next, other.peek = nextOther at peek
  cases peek with
  | none => rfl
  | @some token tokenOther alike =>
      have operand := alike.operand?
      rw [Option.bind_some, Option.bind_some]
      generalize token.operand? = found, tokenOther.operand? = foundOther at operand
      cases operand <;> rfl

end Streams

open ParseError (Shifts)

section Parsing

variable {first second : Interner} {line distance : Nat} {stream other : TokenStream}

/-- A value and the tokens left after it. -/
def LeftAlike {α : Type} (first second : Interner) (values : α → α → Prop)
    (found foundOther : α × TokenStream) : Prop :=
  values found.1 foundOther.1 ∧ TokenStream.Alike first second found.2 foundOther.2

/-- A description that fails or is followed by an error about it. -/
theorem describe_alike {α β : Type} {token tokenOther : Token}
    {values : α → β → Prop} {error errorOther : String → ParseError}
    (alike : Token.Alike first second token tokenOther)
    (shifts : ∀ found, errorOther found = (error found).shifted distance) :
    Corresponds values (Shifts distance)
      (Abort.lift (token.describe first) >>= fun found => throw (.raised (error found)))
      (Abort.lift (tokenOther.describe second) >>= fun found =>
        throw (.raised (errorOther found))) := by
  rw [alike.describe]
  cases tokenOther.describe second with
  | error defect => exact .error rfl
  | ok found => exact .error (congrArg Abort.raised (shifts found))

theorem parseOperand_alike (alike : TokenStream.Alike first second stream other)
    (context : String) :
    Corresponds (LeftAlike first second (Operand.Alike first second)) (Shifts distance)
      (parseOperand first line context stream)
      (parseOperand second (line + distance) context other) := by
  unfold parseOperand
  have peek := alike.peek
  generalize stream.peek = next, other.peek = nextOther at peek
  cases peek with
  | none => exact .error rfl
  | @some token tokenOther same =>
      have operand := same.operand?
      dsimp only
      generalize token.operand? = found, tokenOther.operand? = foundOther at operand
      cases operand with
      | some operand => exact .ok ⟨operand, alike.advance⟩
      | none => exact describe_alike same fun _ => rfl

theorem parseOperands_alike (alike : TokenStream.Alike first second stream other)
    (opcode : Opcode) (kinds : List OperandKind) (number : Nat) :
    Corresponds (LeftAlike first second (List.Forall₂ (Operand.Alike first second)))
      (Shifts distance) (parseOperands first line opcode kinds number stream)
      (parseOperands second (line + distance) opcode kinds number other) := by
  induction kinds generalizing number stream other with
  | nil => exact .ok ⟨.nil, alike⟩
  | cons kind kinds inductionHypothesis =>
      unfold parseOperands
      refine (parseOperand_alike alike.eatComma.2 _).bind ?_
      rintro ⟨operand, rest⟩ ⟨operandOther, restOther⟩ ⟨same, left⟩
      dsimp only at same left ⊢
      rw [← same.kind]
      by_cases accepted : kind.accepts operand.kind
      · rw [if_pos accepted, if_pos accepted]
        refine (inductionHypothesis left (number + 1)).bind ?_
        rintro ⟨operands, last⟩ ⟨others, lastOther⟩ ⟨tail, leftLast⟩
        exact .ok ⟨.cons same tail, leftLast⟩
      · rw [if_neg accepted, if_neg accepted]
        exact .error rfl

theorem Operands.ofList_alike {operands others : List Operand}
    (alike : List.Forall₂ (Operand.Alike first second) operands others) :
    Operands.Alike first second (ofList operands) (ofList others) := by
  have absent : Operand.Alike first second .absent .absent := .plain .absent rfl
  cases alike with
  | nil => exact ⟨absent, absent⟩
  | cons front rest =>
      cases rest with
      | nil => exact ⟨front, absent⟩
      | cons back _ => exact ⟨front, back⟩

theorem parseInstruction_alike (alike : TokenStream.Alike first second stream other)
    (opcode : Opcode) :
    Corresponds (LeftAlike first second (Line.Alike first second)) (Shifts distance)
      (parseInstruction first line opcode stream)
      (parseInstruction second (line + distance) opcode other) := by
  unfold parseInstruction
  refine (parseOperands_alike alike opcode _ 1).bind ?_
  rintro ⟨operands, rest⟩ ⟨others, restOther⟩ ⟨same, left⟩
  exact .ok ⟨.instruction (Operands.ofList_alike same), left⟩

theorem parseDirective_alike (alike : TokenStream.Alike first second stream other)
    (named : Directive) :
    Corresponds (LeftAlike first second (Line.Alike first second)) (Shifts distance)
      (parseDirective first line named stream)
      (parseDirective second (line + distance) named other) := by
  have absent : Operand.Alike first second .absent .absent := .plain .absent rfl
  unfold parseDirective
  rw [← alike.atOperand]
  by_cases operand : stream.atOperand
  · rw [if_pos operand, if_pos operand]
    refine (parseOperand_alike alike _).bind ?_
    rintro ⟨front, rest⟩ ⟨frontOther, restOther⟩ ⟨same, left⟩
    obtain ⟨sameComma, leftComma⟩ := left.eatComma
    dsimp only at same sameComma leftComma ⊢
    rw [← sameComma, ← leftComma.atOperand]
    by_cases more : rest.eatComma.1 || rest.eatComma.2.atOperand
    · rw [if_pos more, if_pos more]
      refine (parseOperand_alike leftComma _).bind ?_
      rintro ⟨back, last⟩ ⟨backOther, lastOther⟩ ⟨sameBack, leftBack⟩
      exact .ok ⟨.directive ⟨same, sameBack⟩, leftBack⟩
    · rw [if_neg more, if_neg more]
      exact .ok ⟨.directive ⟨same, absent⟩, leftComma⟩
  · rw [if_neg operand, if_neg operand]
    exact .ok ⟨.directive ⟨absent, absent⟩, alike⟩

/-- What two parsers read alike: an item each, and the texts that they knew before. -/
structure ReadAlike (first second : Interner)
    (found foundOther : (Item × Interner) × TokenStream) : Prop where
  sound : Sound found.1.2
  soundOther : Sound foundOther.1.2
  grown : Extends first found.1.2
  grownOther : Extends second foundOther.1.2
  item : Item.Alike found.1.2 foundOther.1.2 found.1.1 foundOther.1.1
  rest : TokenStream.Alike found.1.2 foundOther.1.2 found.2 foundOther.2

/-- An item that adds no text. -/
theorem ReadAlike.of_left {item itemOther : Item} {rest restOther : TokenStream}
    (sound : Sound first) (soundOther : Sound second)
    (item_alike : Item.Alike first second item itemOther)
    (left : TokenStream.Alike first second rest restOther) :
    ReadAlike first second ((item, first), rest) ((itemOther, second), restOther) :=
  ⟨sound, soundOther, .refl first, .refl second, item_alike, left⟩

theorem parseIdentifier_alike (sound : Sound first) (soundOther : Sound second)
    {name nameOther : Symbol} (same : SameText first second name nameOther)
    (alike : TokenStream.Alike first second stream other) :
    Corresponds (ReadAlike first second) (Shifts distance)
      (parseIdentifier first line name stream)
      (parseIdentifier second (line + distance) nameOther other) := by
  obtain ⟨text, spelled, spelledOther⟩ := same
  unfold parseIdentifier
  rw [spelled.resolve, spelledOther.resolve]
  simp only [Abort.liftOk, okBind]
  cases labelName? text with
  | some label =>
      obtain ⟨soundLater, grown, labelled⟩ := sound.intern label
      obtain ⟨soundLast, grownOther, labelledOther⟩ := soundOther.intern label
      exact .ok ⟨soundLater, soundLast, grown, grownOther,
        .line (.label ⟨label, labelled, labelledOther⟩), alike.advance.mono grown grownOther⟩
  | none =>
      dsimp only
      cases Opcode.ofMnemonic? text with
      | none => exact .error rfl
      | some opcode =>
          refine (parseInstruction_alike alike.advance opcode).bind ?_
          rintro ⟨content, rest⟩ ⟨contentOther, restOther⟩ ⟨line, left⟩
          exact .ok (.of_left sound soundOther (.line line) left)

theorem parseItem_alike (sound : Sound first) (soundOther : Sound second)
    {token tokenOther : Token} (same : Token.Alike first second token tokenOther)
    (alike : TokenStream.Alike first second stream other) :
    Corresponds (ReadAlike first second) (Shifts distance)
      (parseItem first line token stream)
      (parseItem second (line + distance) tokenOther other) := by
  have described := same
  cases same with
  | identifier name => exact parseIdentifier_alike sound soundOther name alike
  | string => exact describe_alike described fun _ => rfl
  | plain token unnamed =>
      cases token with
      | identifier | string => cases unnamed
      | endOfLine => exact .ok (.of_left sound soundOther .lineEnd alike.advance)
      | register register =>
          exact .ok (.of_left sound soundOther (.strayRegister register) alike.advance)
      | directive named =>
          refine (parseDirective_alike alike.advance named).bind ?_
          rintro ⟨content, rest⟩ ⟨contentOther, restOther⟩ ⟨line, left⟩
          exact .ok (.of_left sound soundOther (.line line) left)
      | integer | char | comma | endOfFile => exact describe_alike described fun _ => rfl

/-- Before their end two streams alike are read alike. -/
theorem parseNext_alike (sound : Sound first) (soundOther : Sound second)
    (alike : TokenStream.Alike first second stream other) (line distance : Nat) {token : Token}
    (next : stream.peek = some token) (more : token ≠ .endOfFile) :
    ∃ tokenOther, other.peek = some tokenOther ∧ tokenOther ≠ .endOfFile ∧
      Corresponds (ReadAlike first second) (Shifts distance) (parseItem first line token stream)
        (parseItem second (line + distance) tokenOther other) := by
  obtain ⟨tokenOther, nextOther, same⟩ := alike.peek_some next
  have moreOther : tokenOther ≠ .endOfFile := more ∘ (same.eq_iff rfl).mpr
  exact ⟨tokenOther, nextOther, moreOther, parseItem_alike sound soundOther same alike⟩

end Parsing

/-- A parser forgets no text. -/
theorem outline_grown {interner : Interner} (sound : Sound interner) (line : Nat)
    (stream : TokenStream) : Extends interner (outline interner line stream).interner := by
  induction interner, line, stream using outline_induction with
  | exhausted interner line stream next =>
      rw [outline_none next]
      exact .refl interner
  | ended interner line stream next =>
      rw [outline_end next]
      exact .refl interner
  | stopped interner line stream token reason next more parsed =>
      rw [outline_stop next more parsed]
      exact .refl interner
  | follows interner line stream token item following rest next more parsed inductionHypothesis =>
      obtain ⟨phrase, _, _, _, found⟩ := parseItem_reads next parsed
      obtain ⟨soundItem, grown⟩ := phrase.item_grown sound
      rw [← found] at soundItem grown
      rw [outline_item next more parsed]
      exact grown.trans (inductionHypothesis soundItem)

/-- Outlines alike, the second one further down. -/
structure Outline.Alike (distance : Nat) (outline other : Outline) : Prop where
  lines : List.Forall₂ (NumberedLine.Alike outline.interner other.interner distance)
    outline.lines other.lines
  stop : Option.Rel (Shifts distance) outline.stop other.stop

theorem Item.Alike.lineAfter {first second : Interner} {item other : Item}
    (alike : Item.Alike first second item other) (line distance : Nat) :
    other.lineAfter (line + distance) = item.lineAfter line + distance := by
  cases alike with
  | line | strayRegister => rfl
  | lineEnd => exact Nat.add_right_comm line distance 1

theorem Item.Alike.lines {first second : Interner} {item other : Item}
    (alike : Item.Alike first second item other) (line distance : Nat) :
    List.Forall₂ (NumberedLine.Alike first second distance) (item.lines line)
      (other.lines (line + distance)) := by
  cases alike with
  | line same => exact .cons ⟨rfl, same⟩ .nil
  | lineEnd | strayRegister => exact .nil

/-- Tokens alike have outlines alike. -/
theorem outline_alike {first second : Interner} (sound : Sound first) (soundOther : Sound second)
    {stream other : TokenStream} (alike : TokenStream.Alike first second stream other)
    (line distance : Nat) :
    Outline.Alike distance (outline first line stream)
      (outline second (line + distance) other) := by
  induction first, line, stream using outline_induction generalizing second other with
  | exhausted interner line stream next =>
      rw [outline_none next, outline_none (alike.peek_none next)]
      exact ⟨.nil, .none⟩
  | ended interner line stream next =>
      obtain ⟨tokenOther, nextOther, same⟩ := alike.peek_some next
      rw [(same.eq_iff rfl).mp rfl] at nextOther
      rw [outline_end next, outline_end nextOther]
      exact ⟨.nil, .none⟩
  | stopped interner line stream token reason next more parsed =>
      obtain ⟨tokenOther, nextOther, moreOther, found⟩ :=
        parseNext_alike sound soundOther alike line distance next more
      rw [parsed] at found
      generalize parsedOther : parseItem second _ tokenOther other = result at found
      cases found with
      | error shifts =>
          rw [outline_stop next more parsed, outline_stop nextOther moreOther parsedOther]
          exact ⟨.nil, .some shifts⟩
  | follows interner line stream token item following rest next more parsed inductionHypothesis =>
      obtain ⟨tokenOther, nextOther, moreOther, found⟩ :=
        parseNext_alike sound soundOther alike line distance next more
      rw [parsed] at found
      generalize parsedOther : parseItem second _ tokenOther other = result at found
      cases found with
      | @ok _ result read =>
          obtain ⟨⟨itemOther, followingOther⟩, restOther⟩ := result
          obtain ⟨soundLater, soundLast, _, _, sameItem, left⟩ := read
          rw [outline_item next more parsed, outline_item nextOther moreOther parsedOther,
            sameItem.lineAfter]
          obtain ⟨lines, stop⟩ := inductionHypothesis soundLater soundLast left
          refine ⟨List.rel_append ?_ lines, stop⟩
          exact (sameItem.lines line distance).imp fun _ _ same =>
            same.mono (outline_grown soundLater _ _) (outline_grown soundLast _ _)

end Source

end RegisterMachine
