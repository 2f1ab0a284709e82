/-
This file proves that no text has two symbols, and that the interner of a program that was read
grew from an empty one. The lexer and the parser only intern texts.
-/

import RegisterMachine.Proofs.Source.Lexing

namespace RegisterMachine

namespace Interner

variable {interner : Interner} {name other : Symbol} {text : String}

/-- The index knows every text. -/
def Complete (interner : Interner) : Prop :=
  ∀ name text, interner.Spells name text → interner.get? text = some name

/-- A symbol of a grown interner is an old one with its old text, or the new one. -/
theorem Sound.adding_spelled (sound : interner.Sound) {added : String}
    (spelled : (interner.adding added).Spells name text) :
    interner.Spells name text ∨ name = ⟨interner.size⟩ ∧ text = added := by
  by_cases old : name.index < interner.size
  · have knows : interner.Knows name := old
    rw [← (sound.adding_extends added).spells_iff knows] at spelled
    exact .inl spelled
  · have knows := spelled.knows
    rw [Knows, size, Interner.adding, Array.size_push] at knows
    have last : name = ⟨interner.size⟩ := by
      rw [size] at old ⊢
      cases name
      simp only [Symbol.mk.injEq]
      dsimp only at knows old
      omega
    rw [last] at spelled
    exact .inr ⟨last, spelled.unique (adding_spells interner added)⟩

theorem Complete.intern (complete : interner.Complete) (sound : interner.Sound) (text : String) :
    (interner.intern text).2.Complete := by
  cases found : interner.get? text with
  | some name =>
      simp only [Interner.intern, found]
      exact complete
  | none =>
      rw [intern_fresh found]
      intro other spelling spelled
      rw [get?, Interner.adding, Std.TreeMap.getElem?_insert]
      rcases sound.adding_spelled spelled with old | ⟨rfl, rfl⟩
      · have known := complete other spelling old
        have different : compare text spelling ≠ .eq := by
          intro equal
          rw [Std.LawfulEqOrd.eq_of_compare equal, known] at found
          cases found
        rw [if_neg different]
        exact known
      · rw [if_pos Std.ReflCmp.compare_self]

theorem Built.complete (built : interner.Built) : interner.Complete := by
  induction built with
  | empty =>
      intro name text spelled
      cases spelled
  | intern text built inductionHypothesis => exact inductionHypothesis.intern built.sound text

/-- Symbols with one text are one symbol. -/
theorem Built.spells_injective (built : interner.Built) (first : interner.Spells name text)
    (second : interner.Spells other text) : name = other :=
  Option.some.inj ((built.complete name text first).symm.trans (built.complete other text second))

/-- The second interner is the first one after some texts were interned. -/
inductive Grows (first : Interner) : Interner → Prop
  | refl : Grows first first
  | intern {second : Interner} (text : String) (grows : Grows first second) :
      Grows first (second.intern text).2

namespace Grows

variable {first second third : Interner}

theorem trans (grows : Grows first second) (next : Grows second third) : Grows first third := by
  induction next with
  | refl => exact grows
  | intern text _ inductionHypothesis => exact inductionHypothesis.intern text

theorem built (grows : Grows first second) (built : first.Built) : second.Built := by
  induction grows with
  | refl => exact built
  | intern text _ inductionHypothesis => exact inductionHypothesis.intern text

theorem extends_sound (grows : Grows first second) (sound : first.Sound) :
    second.Sound ∧ Extends first second := by
  induction grows with
  | refl => exact ⟨sound, .refl first⟩
  | intern text _ inductionHypothesis =>
      obtain ⟨soundSecond, grown⟩ := inductionHypothesis
      obtain ⟨soundLater, grownLater, _⟩ := soundSecond.intern text
      exact ⟨soundLater, grown.trans grownLater⟩

end Grows

end Interner

namespace Source

open Interner (Built Grows)

theorem Token.ofReading_grows (interner : Interner) (reading : Reading) :
    Grows interner (ofReading interner reading).2 := by
  cases reading with
  | comma | endOfLine | register | directive | integer | char => exact .refl
  | string text | identifier text => exact .intern text .refl

namespace Lexer

variable {lexer after : Lexer}

theorem take_grows {characters : List Char} (taken : lexer.take characters = .ok after) :
    Grows lexer.interner after.interner := by
  unfold Lexer.take classify at taken
  cases read : Reading.of? characters with
  | none =>
      rw [read] at taken
      cases taken
  | some reading =>
      rw [read] at taken
      cases taken
      exact Token.ofReading_grows _ reading

theorem step_grows {lexeme : Lexeme} (stepped : lexer.step lexeme = .ok after) :
    Grows lexer.interner after.interner := by
  unfold Lexer.step at stepped
  split_ifs at stepped
  · cases stepped
    exact .refl
  · cases stepped
    exact .refl
  · exact take_grows stepped
  · cases stepped
    exact .refl

theorem steps_grows {lexemes : List Lexeme} (stepped : lexemes.foldlM Lexer.step lexer = .ok after) :
    Grows lexer.interner after.interner := by
  induction lexemes generalizing lexer with
  | nil =>
      cases stepped
      exact .refl
  | cons lexeme rest inductionHypothesis =>
      rw [List.foldlM_cons] at stepped
      obtain ⟨next, first, others⟩ := bindOk stepped
      exact (step_grows first).trans (inductionHypothesis others)

end Lexer

theorem lex_grows {source : List Char} {tokens : List Token} {names : Interner}
    (done : (lex Interner.empty source).value = .ok (tokens, names)) :
    Grows Interner.empty names := by
  obtain ⟨_, lexer, _, stepped, _, rfl⟩ := lex_behind done
  exact Lexer.steps_grows stepped

theorem Phrase.item_grows (interner : Interner) (phrase : Phrase) :
    Grows interner (phrase.item interner).2 := by
  cases phrase with
  | label text => exact .intern text .refl
  | lineEnd | strayRegister | instruction | directive => exact .refl

theorem outline_grows (interner : Interner) (line : Nat) (stream : TokenStream) :
    Grows interner (outline interner line stream).interner := by
  induction interner, line, stream using outline_induction with
  | exhausted interner line stream next =>
      rw [outline_none next]
      exact .refl
  | ended interner line stream next =>
      rw [outline_end next]
      exact .refl
  | stopped interner line stream token reason next more parsed =>
      rw [outline_stop next more parsed]
      exact .refl
  | follows interner line stream token item following rest next more parsed inductionHypothesis =>
      obtain ⟨phrase, _, _, _, found⟩ := parseItem_reads next parsed
      have grows := phrase.item_grows interner
      rw [← found] at grows
      rw [outline_item next more parsed]
      exact grows.trans inductionHypothesis

/-- The interner of a program that was read grew from an empty one. -/
theorem read_built {capacity : Nat} {source : String} {program : Program} {interner : Interner}
    (done : (read capacity source).value = .ok (program, interner)) : interner.Built := by
  obtain ⟨tokens, names, lexed, _, rfl, _⟩ := read_outline done
  exact ((lex_grows lexed).trans (outline_grows names 1 _)).built .empty

end Source

end RegisterMachine
