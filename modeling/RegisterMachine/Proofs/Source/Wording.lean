/-
This file says which texts the names, strings and characters of a source can have. A lexeme limits
what it can stand for, so a text that was read once can be written down and read again.
-/

import RegisterMachine.Proofs.Source.Lexing

namespace RegisterMachine.Source

open Interner (Extends Sound)

/-- A string ends at its first quote. -/
def Lexeme.EndsAtQuote (lexeme : Lexeme) : Prop :=
  ∀ inside, lexeme.text = '"' :: (inside ++ ['"']) → '"' ∉ inside

namespace Front

variable {first : Char} {rest after : List Char} {lexeme : Lexeme}

theorem quotedString_endsAtQuote (found : quotedString rest = .lexeme lexeme after) :
    lexeme.EndsAtQuote := by
  unfold quotedString at found
  dsimp only at found
  split at found
  · cases found
    intro inside text member
    have same := List.append_cancel_right (List.cons.inj text).2
    rw [← same] at member
    have goesOn := List.mem_takeWhile_imp member
    cases goesOn
  · cases found

theorem quotedChar_text (found : quotedChar rest = .lexeme lexeme after) :
    lexeme.text.head? = some '\'' := by
  unfold quotedChar at found
  split at found
  · cases found
  split at found
  · cases found
  split at found
  · cases found
    rfl
  · cases found

theorem of_endsAtQuote (found : of first rest = .lexeme lexeme after) : lexeme.EndsAtQuote := by
  have unquoted (other : lexeme.text.head? ≠ some '"') : lexeme.EndsAtQuote := by
    intro inside text
    rw [text] at other
    exact absurd rfl other
  unfold of at found
  split_ifs at found with blank comment newline comma quote
  · cases found
    apply unquoted
    rintro ⟨rfl⟩
    cases blank
  · cases found
    apply unquoted
    rintro ⟨rfl⟩
    cases comment
  · cases found
    apply unquoted
    simp [newline]
  · cases found
    apply unquoted
    simp [comma]
  · exact quotedString_endsAtQuote found
  · apply unquoted
    simp [quotedChar_text found]
  · cases found
    apply unquoted
    simpa using quote

end Front

theorem Scanned.ofText_endsAtQuote (text : List Char) :
    ∀ lexeme ∈ (ofText text).lexemes, lexeme.EndsAtQuote := by
  induction text using text_induction with
  | empty => simp [ofText_nil]
  | unexpected first rest characters found => simp [ofText_unexpected found]
  | follows first rest lexeme after found inductionHypothesis =>
      rw [ofText_lexeme found, List.forall_mem_cons]
      exact ⟨Front.of_endsAtQuote found, inductionHypothesis⟩

namespace Reading

/-- What a reading can be: a name is read as a name, and quotes end where they should. -/
def IsWritable : Reading → Prop
  | identifier text => of? text.toList = some (.identifier text)
  | string text => '"' ∉ text.toList ∧ '\n' ∉ text.toList
  | char byte => byte.toNat < 128 ∧ byte ≠ 10
  | comma | endOfLine | register _ | directive _ | integer _ _ => True

variable {characters : List Char}

theorem betweenQuotes?_eq_some {inside : List Char}
    (found : betweenQuotes? characters = some inside) :
    characters = '"' :: (inside ++ ['"']) := by
  unfold betweenQuotes? at found
  split at found
  · split at found
    · rename_i rest last
      obtain ⟨front, whole⟩ := List.getLast?_eq_some_iff.mp last
      rw [whole, List.dropLast_concat] at found
      rw [whole, Option.some.inj found]
    · cases found
  · cases found

theorem quotedByte?_eq_some {byte : UInt8} (found : quotedByte? characters = some byte) :
    ∃ character, characters = ['\'', character, '\''] ∧ character.toNat < 128 ∧
      byte = UInt8.ofNat character.toNat := by
  unfold quotedByte? at found
  split at found
  · split at found
    · rename_i character narrow
      exact ⟨character, rfl, narrow, (Option.some.inj found).symm⟩
    · cases found
  · cases found

theorem of?_ordinary {reading : Reading} (found : of? characters = some reading) :
    reading = .comma ∨ reading = .endOfLine ∨
      (∃ register, Register.ofName? (String.ofList characters) = some register ∧
        reading = .register register) ∨
      Register.ofName? (String.ofList characters) = none ∧
        ofOrdinary? characters = some reading := by
  unfold of? at found
  split_ifs at found
  · exact .inl (Option.some.inj found).symm
  · exact .inr (.inl (Option.some.inj found).symm)
  · split at found
    · rename_i named
      exact .inr (.inr (.inl ⟨_, named, (Option.some.inj found).symm⟩))
    · rename_i unnamed
      exact .inr (.inr (.inr ⟨unnamed, found⟩))

/-- A lexeme stands for something that can be written down. -/
theorem of?_isWritable {lexeme : Lexeme} {reading : Reading} (onOneLine : lexeme.OnOneLine)
    (quoted : lexeme.EndsAtQuote) (found : of? lexeme.text = some reading) :
    reading.IsWritable := by
  have noNewline (other : lexeme.text ≠ ['\n']) : '\n' ∉ lexeme.text := by
    rcases onOneLine with ⟨_, newline⟩ | ⟨_, none⟩
    · exact absurd newline other
    · exact none
  rcases of?_ordinary found with rfl | rfl | ⟨_, _, rfl⟩ | ⟨_, ordinary⟩
  · trivial
  · trivial
  · trivial
  unfold ofOrdinary? directive? integer? at ordinary
  split_ifs at ordinary
  · rw [← Option.some.inj ordinary]
    trivial
  · obtain ⟨magnitude, _, rfl⟩ := Option.map_eq_some_iff.mp ordinary
    trivial
  · obtain ⟨byte, quotedByte, rfl⟩ := Option.map_eq_some_iff.mp ordinary
    obtain ⟨character, text, narrow, rfl⟩ := quotedByte?_eq_some quotedByte
    rw [text] at noNewline
    have small : (UInt8.ofNat character.toNat).toNat = character.toNat := by
      rw [UInt8.toNat_ofNat']
      omega
    refine ⟨small.trans_lt narrow, fun newline => ?_⟩
    rw [newline] at small
    have same : character = '\n' := Char.toNat_inj.mp small.symm
    exact noNewline (by simp) (by simp [same])
  · obtain ⟨inside, between, rfl⟩ := Option.map_eq_some_iff.mp ordinary
    have text := betweenQuotes?_eq_some between
    rw [IsWritable, String.toList_ofList]
    refine ⟨quoted inside text, fun member => ?_⟩
    rw [text] at noNewline
    exact noNewline (by simp) (by simp [member])
  · rw [← Option.some.inj ordinary] at found ⊢
    rw [IsWritable, String.toList_ofList]
    exact found

end Reading

/-- The token of a reading, with a symbol for its text. -/
inductive Token.Represents (interner : Interner) : Token → Reading → Prop
  | comma : Represents interner .comma .comma
  | endOfLine : Represents interner .endOfLine .endOfLine
  | register (named : Register) : Represents interner (.register named) (.register named)
  | directive (named : Directive) : Represents interner (.directive named) (.directive named)
  | integer (value : UInt32) (excess : Option Excess) :
      Represents interner (.integer value) (.integer value excess)
  | char (byte : UInt8) : Represents interner (.char byte) (.char byte)
  | string {name : Symbol} {text : String} (spelled : interner.Spells name text) :
      Represents interner (.string name) (.string text)
  | identifier {name : Symbol} {text : String} (spelled : interner.Spells name text) :
      Represents interner (.identifier name) (.identifier text)

theorem Token.Represents.mono {interner after : Interner} {token : Token} {reading : Reading}
    (represents : token.Represents interner reading) (grown : Extends interner after) :
    token.Represents after reading := by
  cases represents with
  | comma => exact .comma
  | endOfLine => exact .endOfLine
  | register named => exact .register named
  | directive named => exact .directive named
  | integer value excess => exact .integer value excess
  | char byte => exact .char byte
  | string spelled => exact .string (grown _ _ spelled)
  | identifier spelled => exact .identifier (grown _ _ spelled)

theorem Token.ofReading_represents {interner : Interner} (sound : interner.Sound)
    (reading : Reading) :
    Represents (ofReading interner reading).2 (ofReading interner reading).1 reading := by
  cases reading with
  | comma => exact .comma
  | endOfLine => exact .endOfLine
  | register named => exact .register named
  | directive named => exact .directive named
  | integer value excess => exact .integer value excess
  | char byte => exact .char byte
  | string text => exact .string (sound.intern text).2.2
  | identifier text => exact .identifier (sound.intern text).2.2

/-- A token that can be written down again. -/
def Token.IsWritable (interner : Interner) (token : Token) : Prop :=
  ∃ reading, token.Represents interner reading ∧ reading.IsWritable

theorem Token.IsWritable.mono {interner after : Interner} {token : Token}
    (sound : token.IsWritable interner) (grown : Extends interner after) :
    token.IsWritable after := by
  obtain ⟨reading, represents, readingSound⟩ := sound
  exact ⟨reading, represents.mono grown, readingSound⟩

namespace Lexer

/-- A lexer whose tokens can all be written down again. -/
structure IsWritable (lexer : Lexer) : Prop where
  interner : lexer.interner.Sound
  tokens : ∀ token ∈ lexer.tokens.toList, token.IsWritable lexer.interner

theorem IsWritable.take {lexer after : Lexer} {lexeme : Lexeme} (sound : lexer.IsWritable)
    (onOneLine : lexeme.OnOneLine) (quoted : lexeme.EndsAtQuote)
    (taken : lexer.take lexeme.text = .ok after) : after.IsWritable := by
  unfold Lexer.take classify at taken
  cases read : Reading.of? lexeme.text with
  | none =>
      rw [read] at taken
      cases taken
  | some reading =>
      rw [read] at taken
      cases taken
      obtain ⟨soundLater, grown⟩ := Token.ofReading_grown sound.interner reading
      refine ⟨soundLater, ?_⟩
      dsimp only
      rw [Array.toList_push, List.forall_mem_append, List.forall_mem_singleton]
      exact ⟨fun token member => (sound.tokens token member).mono grown, reading,
        Token.ofReading_represents sound.interner reading,
        Reading.of?_isWritable onOneLine quoted read⟩

theorem IsWritable.step {lexer after : Lexer} {lexeme : Lexeme} (sound : lexer.IsWritable)
    (onOneLine : lexeme.OnOneLine) (quoted : lexeme.EndsAtQuote)
    (stepped : lexer.step lexeme = .ok after) : after.IsWritable := by
  unfold Lexer.step at stepped
  split_ifs at stepped
  · cases stepped
    exact sound
  · cases stepped
    refine ⟨sound.interner, ?_⟩
    rw [newline, Array.toList_push, List.forall_mem_append, List.forall_mem_singleton]
    exact ⟨sound.tokens, .endOfLine, .endOfLine, trivial⟩
  · exact sound.take onOneLine quoted stepped
  · cases stepped
    exact ⟨sound.interner, sound.tokens⟩

theorem IsWritable.steps {lexer after : Lexer} {lexemes : List Lexeme} (sound : lexer.IsWritable)
    (onOneLine : ∀ lexeme ∈ lexemes, lexeme.OnOneLine)
    (quoted : ∀ lexeme ∈ lexemes, lexeme.EndsAtQuote)
    (stepped : lexemes.foldlM Lexer.step lexer = .ok after) : after.IsWritable := by
  induction lexemes generalizing lexer with
  | nil =>
      cases stepped
      exact sound
  | cons lexeme rest inductionHypothesis =>
      rw [List.forall_mem_cons] at onOneLine quoted
      rw [List.foldlM_cons] at stepped
      obtain ⟨next, first, others⟩ := bindOk stepped
      exact inductionHypothesis (sound.step onOneLine.1 quoted.1 first) onOneLine.2 quoted.2 others

end Lexer

/-- The tokens of a source can all be written down again. -/
theorem lex_isWritable {source : List Char} {tokens : List Token} {names : Interner}
    (done : (lex Interner.empty source).value = .ok (tokens ++ [.endOfFile], names)) :
    ∀ token ∈ tokens, token.IsWritable names := by
  obtain ⟨_, lexer, _, stepped, same, rfl⟩ := lex_behind done
  obtain rfl := List.append_cancel_right same
  have begins : (Lexer.start Interner.empty).IsWritable := ⟨.empty, by simp [Lexer.start]⟩
  exact (begins.steps (Scanned.ofText_onOneLine source) (Scanned.ofText_endsAtQuote source)
    stepped).tokens

end RegisterMachine.Source
