/-
This file says where the parser stops. It has read phrases up to a token with which no phrase of the
grammar begins, and its error is about the item at this token.
-/

import RegisterMachine.Proofs.Source.Acceptance

namespace RegisterMachine.Source

open Interner (Extends)

/-- Phrases that are read one after the other from the front of some tokens up to a rest. -/
inductive Begins (interner : Interner) :
    List (Phrase × List Token) → (tokens rest : List Token) → Prop
  | done (rest : List Token) : Begins interner [] rest rest
  | more {phrase : Phrase} {taken following rest : List Token}
      {others : List (Phrase × List Token)} (reads : phrase.Reads interner taken following)
      (begins : Begins interner others following rest) :
      Begins interner ((phrase, taken) :: others) (taken ++ following) rest

namespace Begins

variable {interner : Interner} {items : List (Phrase × List Token)} {tokens rest : List Token}

theorem split (begins : Begins interner items tokens []) : Split interner items tokens := by
  generalize none : [] = rest at begins
  induction begins with
  | done =>
      rw [← none]
      exact .done
  | more reads _ inductionHypothesis => exact .more reads (inductionHypothesis none)

theorem of_split (split : Split interner items tokens) : Begins interner items tokens [] := by
  induction split with
  | done => exact .done []
  | more reads _ inductionHypothesis => exact .more reads inductionHypothesis

theorem whole (begins : Begins interner items tokens rest) :
    tokens = items.flatMap Prod.snd ++ rest := by
  induction begins with
  | done => rfl
  | more _ _ inductionHypothesis =>
      rw [List.flatMap_cons, List.append_assoc, ← inductionHypothesis]

/-- Only the texts of the tokens count for the phrases. -/
theorem transfer {after : Interner} (begins : Begins interner items tokens rest)
    (agree : ∀ token ∈ tokens, ∀ name ∈ token.names, ∀ text,
      interner.Spells name text → after.Spells name text) : Begins after items tokens rest := by
  induction begins with
  | done => exact .done _
  | more reads _ inductionHypothesis =>
      rw [List.forall_mem_append] at agree
      exact .more (reads.transfer agree.1) (inductionHypothesis agree.2)

end Begins

/-- Tokens with which an item of a program begins. -/
def Token.beginsItem : Token → Bool
  | identifier _ | register _ | directive _ | endOfLine => true
  | integer _ | char _ | string _ | comma | endOfFile => false

/-- The error is about the item that begins with the token. An operand that is missing or of
another kind is one of the mnemonic or the directive at this place. -/
inductive ParseError.Concerns (interner : Interner) (line : Nat) : Token → ParseError → Prop
  | unknownMnemonic {name : Symbol} {text : String} (spelled : interner.Spells name text)
      (noLabel : labelName? text = none) (unknown : Opcode.ofMnemonic? text = none) :
      Concerns interner line (.identifier name) (.unknownMnemonic line text)
  | unexpectedToken {token : Token} (noItem : token.beginsItem = false) (found : String) :
      Concerns interner line token (.unexpectedToken line found)
  | missingOperand {name : Symbol} {text : String} {opcode : Opcode}
      (spelled : interner.Spells name text) (mnemonic : Opcode.ofMnemonic? text = some opcode)
      (found : String) :
      Concerns interner line (.identifier name) (.expectedOperand line opcode.mnemonic found)
  | kindMismatch {name : Symbol} {text : String} {opcode : Opcode}
      (spelled : interner.Spells name text) (mnemonic : Opcode.ofMnemonic? text = some opcode)
      (operand : Nat) (expected found : OperandKind) :
      Concerns interner line (.identifier name)
        (.operandKindMismatch line opcode operand expected found)
  | missingDirectiveOperand (named : Directive) (found : String) :
      Concerns interner line (.directive named) (.expectedOperand line named.name found)

theorem ParseError.Concerns.line_eq {interner : Interner} {line : Nat} {token : Token}
    {error : ParseError} (concerns : error.Concerns interner line token) : error.line = line := by
  cases concerns <;> rfl

theorem ParseError.Concerns.transfer {interner after : Interner} {line : Nat} {token : Token}
    {error : ParseError} (concerns : error.Concerns interner line token)
    (agree : ∀ name ∈ token.names, ∀ text, interner.Spells name text → after.Spells name text) :
    error.Concerns after line token := by
  cases concerns with
  | unknownMnemonic spelled noLabel unknown =>
      exact .unknownMnemonic (agree _ List.mem_cons_self _ spelled) noLabel unknown
  | unexpectedToken noItem found => exact .unexpectedToken noItem found
  | missingOperand spelled mnemonic found =>
      exact .missingOperand (agree _ List.mem_cons_self _ spelled) mnemonic found
  | kindMismatch spelled mnemonic operand expected found =>
      exact .kindMismatch (agree _ List.mem_cons_self _ spelled) mnemonic operand expected found
  | missingDirectiveOperand named found => exact .missingDirectiveOperand named found

section Errors

variable {interner : Interner} {line : Nat} {stream : TokenStream} {error : ParseError}

/-- A sequence fails in one of its parts. -/
theorem bindError {ε α β : Type} {first : Except ε α} {next : α → Except ε β} {reason : ε}
    (failed : (first >>= next) = .error reason) :
    first = .error reason ∨ ∃ value, first = .ok value ∧ next value = .error reason := by
  cases first with
  | error cause => exact .inl (congrArg Except.error (Except.error.inj failed))
  | ok value => exact .inr ⟨value, rfl, failed⟩

theorem lift_notRaised {α : Type} {outcome : Except Defect α} :
    Abort.lift outcome ≠ .error (.raised error) := by
  cases outcome <;> nofun

theorem parseOperand_error {context : String}
    (failed : parseOperand interner line context stream = .error (.raised error)) :
    ∃ found, error = .expectedOperand line context found := by
  unfold parseOperand at failed
  split at failed
  · cases failed
    exact ⟨_, rfl⟩
  · split at failed
    · cases failed
    · rcases bindError failed with described | ⟨found, _, thrown⟩
      · exact absurd described lift_notRaised
      · cases thrown
        exact ⟨found, rfl⟩

theorem parseOperands_error {opcode : Opcode} {kinds : List OperandKind} {number : Nat}
    (failed : parseOperands interner line opcode kinds number stream = .error (.raised error)) :
    (∃ found, error = .expectedOperand line opcode.mnemonic found) ∨
      ∃ operand expected found,
        error = .operandKindMismatch line opcode operand expected found := by
  induction kinds generalizing number stream with
  | nil => cases failed
  | cons kind kinds inductionHypothesis =>
      unfold parseOperands at failed
      rcases bindError failed with missing | ⟨⟨operand, after⟩, _, failed⟩
      · exact .inl (parseOperand_error missing)
      · dsimp only at failed
        split at failed
        · rcases bindError failed with later | ⟨_, _, returned⟩
          · exact inductionHypothesis later
          · cases returned
        · cases failed
          exact .inr ⟨_, _, _, rfl⟩

theorem parseDirective_error {named : Directive}
    (failed : parseDirective interner line named stream = .error (.raised error)) :
    ∃ found, error = .expectedOperand line named.name found := by
  unfold parseDirective at failed
  split at failed
  · rcases bindError failed with missing | ⟨⟨first, after⟩, _, failed⟩
    · exact parseOperand_error missing
    · dsimp only at failed
      split at failed
      · rcases bindError failed with missing | ⟨_, _, returned⟩
        · exact parseOperand_error missing
        · cases returned
      · cases failed
  · cases failed

theorem parseIdentifier_error {name : Symbol}
    (failed : parseIdentifier interner line name stream = .error (.raised error)) :
    error.Concerns interner line (.identifier name) := by
  rcases bindError failed with resolved | ⟨text, resolved, failed⟩
  · exact absurd resolved lift_notRaised
  · have spelled := Interner.Spells.of_resolve (mapErrorOk resolved)
    split at failed
    · cases failed
    · rename_i noLabel
      split at failed
      · rename_i opcode mnemonic
        rcases bindError failed with refused | ⟨_, _, returned⟩
        · rcases bindError refused with operands | ⟨_, _, returned⟩
          · rcases parseOperands_error operands with ⟨found, rfl⟩ | ⟨operand, expected, found, rfl⟩
            · exact .missingOperand spelled mnemonic found
            · exact .kindMismatch spelled mnemonic operand expected found
          · cases returned
        · cases returned
      · rename_i unknown
        cases failed
        exact .unknownMnemonic spelled noLabel unknown

/-- An error at a token is about the item that begins there. -/
theorem parseItem_error {token : Token}
    (failed : parseItem interner line token stream = .error (.raised error)) :
    error.Concerns interner line token := by
  unfold parseItem at failed
  split at failed
  · cases failed
  · cases failed
  · rcases bindError failed with refused | ⟨_, _, returned⟩
    · obtain ⟨found, rfl⟩ := parseDirective_error refused
      exact .missingDirectiveOperand _ found
    · cases returned
  · exact parseIdentifier_error failed
  all_goals
    rcases bindError failed with described | ⟨found, _, thrown⟩
    · exact absurd described lift_notRaised
    · cases thrown
      exact .unexpectedToken rfl found

end Errors

/-- The parser stops behind some phrases at a token where it reads no further one, for a reason that
it finds there on the line that the phrases lead to. -/
inductive StopsBehind (interner : Interner) (line : Nat) (pending : List Token)
    (reason : Abort ParseError) : List (Phrase × List Token) → Token → List Token → Prop
  | intro {items : List (Phrase × List Token)} {token : Token} {more : List Token}
      {current : Interner} {position : Nat}
      (begins : Begins interner items (beforeEnd pending) (token :: more))
      (sound : current.Sound) (grown : Extends interner current)
      (refused : parseItem current (lineAfter line items) token
        ⟨token :: (more ++ fromEnd pending), position⟩ = .error reason) :
      StopsBehind interner line pending reason items token more

/-- Where the outline of some tokens stops. -/
theorem outline_stops {interner : Interner} {line : Nat} {stream : TokenStream}
    {reason : Abort ParseError} (sound : interner.Sound) (informed : stream.Informed interner)
    (stopped : (outline interner line stream).stop = some reason) :
    ∃ items token more, StopsBehind interner line stream.pending reason items token more := by
  induction interner, line, stream using outline_induction with
  | exhausted interner line stream next =>
      rw [outline_none next] at stopped
      cases stopped
  | ended interner line stream next =>
      rw [outline_end next] at stopped
      cases stopped
  | stopped interner line stream token cause next more parsed =>
      rw [outline_stop next more parsed] at stopped
      obtain rfl := Option.some.inj stopped
      obtain ⟨pending, position⟩ := stream
      cases pending with
      | nil => cases next
      | cons first rest =>
          obtain rfl : first = token := Option.some.inj next
          have notEnd : ∀ token ∈ [first], token ≠ .endOfFile := by simpa using more
          have before : beforeEnd (first :: rest) = first :: beforeEnd rest :=
            beforeEnd_append notEnd rest
          have after : fromEnd (first :: rest) = fromEnd rest := fromEnd_append notEnd rest
          have whole := beforeEnd_append_fromEnd rest
          rw [← after] at whole
          rw [← whole] at parsed
          refine ⟨[], first, beforeEnd rest, .intro ?_ sound (.refl interner) parsed⟩
          rw [before]
          exact .done _
  | follows interner line stream token item following rest next more parsed inductionHypothesis =>
      rw [outline_item next more parsed] at stopped
      obtain ⟨phrase, taken, here⟩ := parseItem_readsItem sound informed next parsed
      obtain ⟨items, last, others, begins, soundLater, grown, refused⟩ :=
        inductionHypothesis here.sound here.informed stopped
      have line_eq : item.lineAfter line = phrase.lineAfter line := by
        rw [← phrase.item_lineAfter interner, ← here.found]
      rw [line_eq, ← fromEnd_append here.reads.notEnd, ← here.pending] at refused
      refine ⟨(phrase, taken) :: items, last, others,
        .intro ?_ soundLater (here.grown.trans grown) refused⟩
      rw [here.pending, beforeEnd_append here.reads.notEnd]
      exact .more here.reads (begins.transfer here.agree)

namespace StopsBehind

variable {interner : Interner} {line : Nat} {pending more : List Token} {token : Token}
  {items : List (Phrase × List Token)}

/-- No phrase of the grammar begins where the parser stops. -/
theorem noPhrase {reason : Abort ParseError}
    (stops : StopsBehind interner line pending reason items token more) {phrase : Phrase}
    {taken following : List Token} (reads : phrase.Reads interner taken following) :
    taken ++ following ≠ token :: more := by
  intro whole
  cases stops with
  | @intro current position _ _ grown refused =>
      have here : phrase.Reads current taken (following ++ fromEnd pending) :=
        (reads.transfer fun _ _ name _ text => grown name text).extend (fromEnd_closes pending)
      obtain ⟨first, head, _, parsed⟩ := here.parse (lineAfter line items) position
      obtain rfl : first = token := by
        have front := head?_extended following head
        rw [whole] at front
        exact (Option.some.inj front).symm
      rw [← List.append_assoc, whole, List.cons_append, refused] at parsed
      cases parsed

/-- The error that stops the parser is about the item at the token. -/
theorem concerns {error : ParseError}
    (stops : StopsBehind interner line pending (.raised error) items token more)
    (known : Known interner token.names) :
    error.Concerns interner (lineAfter line items) token := by
  cases stops with
  | intro _ _ grown refused =>
      apply (parseItem_error refused).transfer
      exact fun name member text spelled => (grown.spells_iff (known name member)).mpr spelled

end StopsBehind

end RegisterMachine.Source
