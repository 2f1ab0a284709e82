/-
This file proves that the parser accepts exactly the tokens that can be split into the items of the
grammar. There is never more than one split, and its labels, instructions and directives are the
lines of the program.
-/

import Mathlib.Data.List.Forall2
import RegisterMachine.Proofs.Source.Grammar
import RegisterMachine.Proofs.Source.Outline

namespace RegisterMachine.Source

open Interner (Extends)

namespace Phrase

section Items

variable {interner : Interner}

/-- The interner after an item knows the old symbols as before. -/
theorem item_grown (sound : interner.Sound) (phrase : Phrase) :
    (phrase.item interner).2.Sound ∧ Extends interner (phrase.item interner).2 := by
  cases phrase with
  | label text => exact ⟨(sound.intern text).1, (sound.intern text).2.1⟩
  | lineEnd | strayRegister | instruction | directive => exact ⟨sound, .refl interner⟩

/-- Different phrases are different items. -/
theorem item_injective (sound : interner.Sound) {first second : Phrase}
    (same : first.item interner = second.item interner) : first = second := by
  cases first with
  | label text =>
      cases second with
      | label other =>
          simp only [item, Prod.mk.injEq, Item.line.injEq, Line.label.injEq] at same
          have spelled := (sound.intern text).2.2
          rw [same.1, same.2] at spelled
          rw [spelled.unique (sound.intern other).2.2]
      | lineEnd | strayRegister | instruction | directive => simp [item] at same
  | lineEnd | strayRegister | instruction | directive =>
      cases second <;> simp_all [item]

/-- At the front of some tokens only one phrase can be read. -/
theorem Reads.unique {first second : Phrase} {taken other following rest : List Token}
    (sound : interner.Sound) (reads : first.Reads interner taken following)
    (reread : second.Reads interner other rest) (same : taken ++ following = other ++ rest) :
    first = second ∧ taken = other ∧ following = rest := by
  obtain ⟨token, head, _, parsed⟩ := reads.parse 0 0
  obtain ⟨otherToken, otherHead, _, reparsed⟩ := reread.parse 0 0
  have heads : token = otherToken := by
    have front := congrArg List.head? same
    rw [List.head?_append, List.head?_append, head, otherHead] at front
    exact Option.some.inj front
  rw [heads, same, reparsed, Except.ok.injEq, Prod.mk.injEq, TokenStream.mk.injEq] at parsed
  obtain ⟨items, rest, _⟩ := parsed
  subst rest
  exact ⟨item_injective sound items.symm, List.append_cancel_right same, rfl⟩

/-- Only the texts of the tokens that it takes count for a phrase. -/
theorem Reads.transfer {phrase : Phrase} {taken following : List Token} {after : Interner}
    (reads : phrase.Reads interner taken following)
    (agree : ∀ token ∈ taken, ∀ name ∈ token.names, ∀ text,
      interner.Spells name text → after.Spells name text) :
    phrase.Reads after taken following := by
  cases reads with
  | lineEnd => exact .lineEnd _
  | strayRegister register => exact .strayRegister register _
  | label _ spelled =>
      exact .label _ (agree _ List.mem_cons_self _ List.mem_cons_self _ spelled)
  | instruction _ spelled mnemonic written filled =>
      exact .instruction _ (agree _ List.mem_cons_self _ List.mem_cons_self _ spelled) mnemonic
        written filled
  | bareDirective named noOperand => exact .bareDirective named noOperand
  | directive named stands noComma noOperand => exact .directive named stands noComma noOperand
  | pairedDirective named _ standsFirst separator standsSecond =>
      exact .pairedDirective named _ standsFirst separator standsSecond

/-- What follows a phrase counts only for the commas and operands that it begins with. -/
theorem Reads.of_following {phrase : Phrase} {taken following other : List Token}
    (reads : phrase.Reads interner taken following)
    (comma : other.head? = some .comma → following.head? = some .comma)
    (operand : StartsOperand other → StartsOperand following) :
    phrase.Reads interner taken other := by
  cases reads with
  | lineEnd => exact .lineEnd _
  | strayRegister register => exact .strayRegister register _
  | label _ spelled => exact .label _ spelled
  | instruction _ spelled mnemonic written filled =>
      exact .instruction _ spelled mnemonic written filled
  | bareDirective named noOperand => exact .bareDirective named (noOperand ∘ operand)
  | directive named stands noComma noOperand =>
      exact .directive named stands (noComma ∘ comma) (noOperand ∘ operand)
  | pairedDirective named _ standsFirst separator standsSecond =>
      exact .pairedDirective named _ standsFirst separator standsSecond

end Items

end Phrase

/-- Tokens that no phrase before them reaches into. -/
structure Closes (tokens : List Token) : Prop where
  noComma : tokens.head? ≠ some .comma
  noOperand : ¬StartsOperand tokens

theorem head?_extended {tokens : List Token} {token : Token} (rest : List Token)
    (front : tokens.head? = some token) : (tokens ++ rest).head? = some token := by
  rw [List.head?_append, front]
  rfl

theorem StartsOperand.extended {tokens : List Token} (rest : List Token)
    (starts : StartsOperand tokens) : StartsOperand (tokens ++ rest) := by
  unfold StartsOperand at starts ⊢
  cases front : tokens.head? with
  | none =>
      rw [front] at starts
      cases starts
  | some token =>
      rw [head?_extended rest front]
      rw [front] at starts
      exact starts

namespace Phrase

section Following

variable {interner : Interner} {phrase : Phrase} {taken following rest : List Token}

theorem Reads.extend (reads : phrase.Reads interner taken following) (closes : Closes rest) :
    phrase.Reads interner taken (following ++ rest) := by
  cases following with
  | nil =>
      exact reads.of_following (fun comma => absurd comma closes.noComma)
        fun operand => absurd operand closes.noOperand
  | cons token others => exact reads.of_following id id

theorem Reads.restrict (reads : phrase.Reads interner taken (following ++ rest)) :
    phrase.Reads interner taken following :=
  reads.of_following (head?_extended rest) (.extended rest)

end Following

end Phrase

/-- Tokens cut into the phrases of a program; each phrase is read with the others behind it. -/
inductive Split (interner : Interner) : List (Phrase × List Token) → List Token → Prop
  | done : Split interner [] []
  | more {phrase : Phrase} {taken following : List Token} {others : List (Phrase × List Token)}
      (reads : phrase.Reads interner taken following) (rest : Split interner others following) :
      Split interner ((phrase, taken) :: others) (taken ++ following)

namespace Phrase

/-- The line on which the next phrase stands. -/
def lineAfter (line : Nat) : Phrase → Nat
  | lineEnd => line + 1
  | strayRegister _ | label _ | instruction _ | directive _ _ => line

/-- Labels, instructions and directives become lines of the program. -/
def isLine : Phrase → Bool
  | label _ | instruction _ | directive _ _ => true
  | lineEnd | strayRegister _ => false

/-- The line of a program that a phrase becomes. -/
inductive Stands (interner : Interner) : Phrase → Line → Prop
  | label {name : Symbol} {text : String} (spelled : interner.Spells name text) :
      Stands interner (.label text) (.label name)
  | instruction (content : Instruction) :
      Stands interner (.instruction content) (.instruction content)
  | directive (named : Directive) (operands : Operands) :
      Stands interner (.directive named operands) (.directive named operands)

/-- A phrase becomes a line with the number of its source line. -/
structure StandsAt (interner : Interner) (phrase : Nat × Phrase) (line : NumberedLine) : Prop where
  number : line.number = phrase.1
  content : phrase.2.Stands interner line.content

theorem Stands.mono {interner after : Interner} {phrase : Phrase} {line : Line}
    (stands : phrase.Stands interner line) (grown : Extends interner after) :
    phrase.Stands after line := by
  cases stands with
  | label spelled => exact .label (grown _ _ spelled)
  | instruction content => exact .instruction content
  | directive named operands => exact .directive named operands

theorem StandsAt.mono {interner after : Interner} {phrase : Nat × Phrase} {line : NumberedLine}
    (stands : StandsAt interner phrase line) (grown : Extends interner after) :
    StandsAt after phrase line :=
  ⟨stands.number, stands.content.mono grown⟩

theorem item_lineAfter (phrase : Phrase) (interner : Interner) (line : Nat) :
    (phrase.item interner).1.lineAfter line = phrase.lineAfter line := by
  cases phrase <;> rfl

theorem item_stands {interner : Interner} (sound : interner.Sound) (phrase : Phrase)
    (line : Nat) :
    List.Forall₂ (StandsAt (phrase.item interner).2)
      (if phrase.isLine then [(line, phrase)] else []) ((phrase.item interner).1.lines line) := by
  cases phrase with
  | lineEnd | strayRegister => exact .nil
  | label text => exact .cons ⟨rfl, .label (sound.intern text).2.2⟩ .nil
  | instruction content => exact .cons ⟨rfl, .instruction content⟩ .nil
  | directive named operands => exact .cons ⟨rfl, .directive named operands⟩ .nil

end Phrase

/-- The phrases that become lines, each with the number of its source line. -/
def numbered (line : Nat) : List (Phrase × List Token) → List (Nat × Phrase)
  | [] => []
  | (phrase, _) :: others =>
      (if phrase.isLine then [(line, phrase)] else []) ++ numbered (phrase.lineAfter line) others

/-- The line on which some phrases end. -/
def lineAfter (line : Nat) (items : List (Phrase × List Token)) : Nat :=
  items.foldl (fun line item => item.1.lineAfter line) line

section Splitting

variable {interner : Interner} {phrase : Phrase} {items others : List (Phrase × List Token)}
  {taken following tokens rest : List Token}

theorem Phrase.Reads.nonempty (reads : phrase.Reads interner taken following) : taken ≠ [] := by
  obtain ⟨token, head, _⟩ := reads.parse 0 0
  rintro rfl
  cases head

theorem Split.of_nil (split : Split interner items []) : items = [] := by
  generalize none : [] = tokens at split
  cases split with
  | done => rfl
  | more reads => exact absurd (List.append_eq_nil_iff.mp none.symm).1 reads.nonempty

/-- The first phrase of a split is the one that the grammar allows there. -/
theorem Split.of_reads (sound : interner.Sound) (reads : phrase.Reads interner taken following)
    (split : Split interner items (taken ++ following)) :
    ∃ others, items = (phrase, taken) :: others ∧ Split interner others following := by
  generalize whole : taken ++ following = tokens at split
  cases split with
  | done => exact absurd (List.append_eq_nil_iff.mp whole).1 reads.nonempty
  | more reread split =>
      obtain ⟨rfl, rfl, rfl⟩ := reads.unique sound reread whole
      exact ⟨_, rfl, split⟩

/-- There is one way to cut tokens into phrases. -/
theorem Split.unique (sound : interner.Sound) (split : Split interner items tokens)
    (resplit : Split interner others tokens) : items = others := by
  induction split generalizing others with
  | done => exact resplit.of_nil.symm
  | more reads _ inductionHypothesis =>
      obtain ⟨later, rfl, tail⟩ := Split.of_reads sound reads resplit
      rw [inductionHypothesis tail]

/-- Only the texts of the tokens count for a split. -/
theorem Split.transfer {after : Interner} (split : Split interner items tokens)
    (agree : ∀ token ∈ tokens, ∀ name ∈ token.names, ∀ text,
      interner.Spells name text → after.Spells name text) : Split after items tokens := by
  induction split with
  | done => exact .done
  | more reads _ inductionHypothesis =>
      refine .more (reads.transfer fun token member => agree token ?_)
        (inductionHypothesis fun token member => agree token ?_)
      · exact List.mem_append_left _ member
      · exact List.mem_append_right _ member

/-- The parser takes a phrase and goes on after it. -/
theorem Phrase.Reads.outlined (reads : phrase.Reads interner taken following)
    (line position : Nat) :
    outline interner line ⟨taken ++ following, position⟩ =
      (outline (phrase.item interner).2 (phrase.lineAfter line)
        ⟨following, position + taken.length⟩).behind ((phrase.item interner).1.lines line) := by
  obtain ⟨token, head, more, parsed⟩ := reads.parse line position
  rw [← phrase.item_lineAfter interner]
  exact outline_item (head?_extended _ head) more parsed

/-- The parser goes through tokens that split into phrases, and finds the lines that the phrases
stand for. What follows must not belong to the last phrase. -/
theorem Split.outlined {current : Interner} (split : Split interner items tokens)
    (grown : Extends interner current) (sound : current.Sound) (closes : Closes rest)
    (line position : Nat) :
    ∃ lines later after, later.Sound ∧ Extends current later ∧
      List.Forall₂ (Phrase.StandsAt later) (numbered line items) lines ∧
      outline current line ⟨tokens ++ rest, position⟩ =
        (outline later (lineAfter line items) ⟨rest, after⟩).behind lines := by
  induction split generalizing current line position with
  | done => exact ⟨[], current, position, sound, .refl current, .nil, rfl⟩
  | more reads split inductionHypothesis =>
      rename_i phrase taken following others
      have here : phrase.Reads current taken (following ++ rest) :=
        (reads.transfer fun _ _ name _ text => grown name text).extend closes
      obtain ⟨soundItem, grownItem⟩ := Phrase.item_grown sound phrase
      obtain ⟨lines, later, after, soundLater, grownLater, stands, found⟩ :=
        inductionHypothesis (grown.trans grownItem) soundItem (phrase.lineAfter line)
          (position + taken.length)
      have first := (Phrase.item_stands sound phrase line).imp
        fun _ _ stands => stands.mono grownLater
      refine ⟨_, later, after, soundLater, grownItem.trans grownLater,
        List.rel_append first stands, ?_⟩
      rw [List.append_assoc, here.outlined, found, Outline.behind_behind]
      rfl

end Splitting

end RegisterMachine.Source
