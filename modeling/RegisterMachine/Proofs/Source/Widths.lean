/-
This file measures how much of a source its tokens take. A lexeme is at least as long as what it
stands for, so all tokens with their texts fit the bytes of the source.
-/

import Mathlib.Algebra.Ring.Nat
import RegisterMachine.Proofs.Source.Wording

namespace RegisterMachine

open Source
open Interner (Extends)

namespace Interner

/-- A text that is interned makes the arena longer by no more than itself. -/
theorem intern_size (interner : Interner) (text : String) :
    (interner.intern text).2.arenaSize ≤ interner.arenaSize + text.utf8ByteSize ∧
      (interner.intern text).2.size ≤ interner.size + 1 := by
  cases found : interner.get? text with
  | none =>
      rw [intern_fresh found]
      constructor
      · rw [arenaSize, adding, String.utf8ByteSize_append]
        exact Nat.le_refl _
      · rw [size, adding, Array.size_push]
        exact Nat.le_refl _
  | some name =>
      simp only [intern, found]
      exact ⟨Nat.le_add_right _ _, Nat.le_add_right _ _⟩

theorem Spells.textOf {interner : Interner} {name : Symbol} {text : String}
    (spelled : interner.Spells name text) : interner.textOf name = text := by
  rw [Interner.textOf, spelled]
  rfl

end Interner

namespace Source

theorem length_le_utf8Len (characters : List Char) :
    characters.length ≤ String.utf8Len characters := by
  induction characters with
  | nil => exact Nat.le_refl _
  | cons first rest inductionHypothesis =>
      have positive := first.utf8Size_pos
      rw [List.length_cons, String.utf8Len_cons]
      omega

/-- The bytes that a reading takes at least where it is written. -/
def Reading.width : Reading → Nat
  | .identifier name => name.utf8ByteSize
  | .string text => text.utf8ByteSize + 2
  | .endOfLine => 1
  | .directive _ => 4
  | .comma | .register _ | .integer _ _ | .char _ => 0

/-- The bytes that a token takes at least where it is written. -/
def Token.width (interner : Interner) : Token → Nat
  | .identifier name => (interner.textOf name).utf8ByteSize
  | .string text => (interner.textOf text).utf8ByteSize + 2
  | .endOfLine => 1
  | .directive _ => 4
  | .comma | .register _ | .integer _ | .char _ | .endOfFile => 0

def widths (interner : Interner) (tokens : List Token) : Nat :=
  (tokens.map (Token.width interner)).sum

theorem widths_append (interner : Interner) (first second : List Token) :
    widths interner (first ++ second) = widths interner first + widths interner second := by
  rw [widths, List.map_append, List.sum_append]
  rfl

theorem widths_cons (interner : Interner) (token : Token) (rest : List Token) :
    widths interner (token :: rest) = token.width interner + widths interner rest := by
  rw [widths, List.map_cons, List.sum_cons]
  rfl

theorem widths_singleton (interner : Interner) (token : Token) :
    widths interner [token] = token.width interner :=
  widths_cons interner token []

theorem Token.Represents.width {interner : Interner} {token : Token} {reading : Reading}
    (represents : token.Represents interner reading) : token.width interner = reading.width := by
  cases represents with
  | comma | endOfLine | register | directive | integer | char => rfl
  | string spelled | identifier spelled => rw [Token.width, spelled.textOf, Reading.width]

theorem Reading.byteLength_eq (characters : List Char) :
    byteLength characters = String.utf8Len characters := by
  have total (start : Nat) :
      characters.foldl (fun total character => total + character.utf8Size) start =
        start + String.utf8Len characters := by
    induction characters generalizing start with
    | nil => rfl
    | cons first rest inductionHypothesis =>
        rw [List.foldl_cons, inductionHypothesis, String.utf8Len_cons]
        omega
  rw [byteLength, total, Nat.zero_add]

/-- A lexeme takes as many bytes as what it stands for, or more. -/
theorem Reading.width_le {characters : List Char} {reading : Reading}
    (found : of? characters = some reading) : reading.width ≤ String.utf8Len characters := by
  rcases of?_ordinary found with rfl | rfl | ⟨_, _, rfl⟩ | ⟨_, ordinary⟩
  · exact Nat.zero_le _
  · rw [of?_endOfLine found]
    exact Nat.le_refl _
  · exact Nat.zero_le _
  unfold ofOrdinary? directive? integer? at ordinary
  split_ifs at ordinary with _ fits
  · rw [← Option.some.inj ordinary, Reading.width, ← byteLength_eq]
    exact fits
  · obtain ⟨magnitude, _, rfl⟩ := Option.map_eq_some_iff.mp ordinary
    exact Nat.zero_le _
  · obtain ⟨byte, _, rfl⟩ := Option.map_eq_some_iff.mp ordinary
    exact Nat.zero_le _
  · obtain ⟨inside, between, rfl⟩ := Option.map_eq_some_iff.mp ordinary
    rw [betweenQuotes?_eq_some between, Reading.width, String.utf8ByteSize_ofList,
      String.utf8Len_cons, String.utf8Len_append]
    exact Nat.le_refl _
  · rw [← Option.some.inj ordinary, Reading.width, String.utf8ByteSize_ofList]

/-- A reading brings no more text into the interner than it takes. -/
theorem Token.ofReading_size (interner : Interner) (reading : Reading) :
    (ofReading interner reading).2.arenaSize ≤ interner.arenaSize + reading.width ∧
      (ofReading interner reading).2.size ≤ interner.size + 1 := by
  cases reading with
  | comma | endOfLine | register | directive | integer | char =>
      exact ⟨Nat.le_add_right _ _, Nat.le_add_right _ _⟩
  | string text =>
      obtain ⟨arena, count⟩ := interner.intern_size text
      exact ⟨Nat.le_trans arena (Nat.add_le_add_left (Nat.le_add_right _ 2) _), count⟩
  | identifier name => exact interner.intern_size name

/-- The tokens so far fit some bytes of the source, and so do the texts that were interned. -/
structure Lexer.Fits (lexer : Lexer) (room : Nat) : Prop where
  sound : lexer.interner.Sound
  tokens : ∀ final, Extends lexer.interner final → widths final lexer.tokens.toList ≤ room
  arena : lexer.interner.arenaSize ≤ room
  count : lexer.interner.size ≤ room

namespace Lexer.Fits

variable {lexer after : Lexer} {room : Nat}

theorem mono (fits : lexer.Fits room) (more : Nat) : lexer.Fits (room + more) where
  sound := fits.sound
  tokens final grown := Nat.le_add_right_of_le (fits.tokens final grown)
  arena := Nat.le_add_right_of_le fits.arena
  count := Nat.le_add_right_of_le fits.count

theorem push_widths {tokens : Array Token} {token : Token} {final : Interner} {more : Nat}
    (earlier : widths final tokens.toList ≤ room) (last : token.width final ≤ more) :
    widths final (tokens.push token).toList ≤ room + more := by
  rw [Array.toList_push, widths_append, widths_singleton]
  exact Nat.add_le_add earlier last

theorem take {characters : List Char} (fits : lexer.Fits room) (nonempty : characters ≠ [])
    (taken : lexer.take characters = .ok after) :
    after.Fits (room + String.utf8Len characters) := by
  unfold Lexer.take classify at taken
  cases read : Reading.of? characters with
  | none =>
      rw [read] at taken
      cases taken
  | some reading =>
      rw [read] at taken
      cases taken
      have width := Reading.width_le read
      have longer : 1 ≤ String.utf8Len characters :=
        Nat.le_trans (List.length_pos_iff.mpr nonempty) (length_le_utf8Len characters)
      obtain ⟨sound, grown⟩ := Token.ofReading_grown fits.sound reading
      obtain ⟨arena, count⟩ := Token.ofReading_size lexer.interner reading
      refine ⟨sound, ?_, ?_, ?_⟩
      · intro final later
        have represents := (Token.ofReading_represents fits.sound reading).mono later
        exact push_widths (fits.tokens final (grown.trans later)) (represents.width.trans_le width)
      · exact Nat.le_trans arena (Nat.add_le_add fits.arena width)
      · exact Nat.le_trans count (Nat.add_le_add fits.count longer)

/-- A lexeme makes room for the token that it is taken for. -/
theorem step {lexeme : Lexeme} (fits : lexer.Fits room) (nonempty : lexeme.text ≠ [])
    (stepped : lexer.step lexeme = .ok after) :
    after.Fits (room + String.utf8Len lexeme.text) := by
  have longer : 1 ≤ String.utf8Len lexeme.text :=
    Nat.le_trans (List.length_pos_iff.mpr nonempty) (length_le_utf8Len lexeme.text)
  have more := fits.mono (String.utf8Len lexeme.text)
  unfold Lexer.step at stepped
  split_ifs at stepped
  · cases stepped
    exact more
  · cases stepped
    exact ⟨more.sound, fun final grown => push_widths (fits.tokens final grown) longer, more.arena,
      more.count⟩
  · exact fits.take nonempty stepped
  · cases stepped
    exact ⟨more.sound, more.tokens, more.arena, more.count⟩

theorem steps {lexemes : List Lexeme} (fits : lexer.Fits room)
    (nonempty : ∀ lexeme ∈ lexemes, lexeme.text ≠ [])
    (stepped : lexemes.foldlM Lexer.step lexer = .ok after) :
    after.Fits (room + (lexemes.map fun lexeme => String.utf8Len lexeme.text).sum) := by
  induction lexemes generalizing lexer room with
  | nil =>
      cases stepped
      exact fits
  | cons lexeme rest inductionHypothesis =>
      rw [List.forall_mem_cons] at nonempty
      rw [List.foldlM_cons] at stepped
      obtain ⟨next, first, others⟩ := bindOk stepped
      rw [List.map_cons, List.sum_cons, ← Nat.add_assoc]
      exact inductionHypothesis (fits.step nonempty.1 first) nonempty.2 others

end Lexer.Fits

/-- Lexemes are not empty, and they take no more bytes than the text that they are cut from. -/
theorem Scanned.ofText_size (text : List Char) :
    (∀ lexeme ∈ (ofText text).lexemes, lexeme.text ≠ []) ∧
      ((ofText text).lexemes.map fun lexeme => String.utf8Len lexeme.text).sum ≤
        String.utf8Len text := by
  induction text using text_induction with
  | empty =>
      rw [ofText_nil]
      exact ⟨List.forall_mem_nil _, Nat.le_refl _⟩
  | unexpected first rest characters found =>
      rw [ofText_unexpected found]
      exact ⟨List.forall_mem_nil _, Nat.zero_le _⟩
  | follows first rest lexeme after found inductionHypothesis =>
      obtain ⟨others, size⟩ := inductionHypothesis
      obtain ⟨whole, nonempty⟩ := Front.ofPartition found
      rw [ofText_lexeme found, whole, List.forall_mem_cons, String.utf8Len_append]
      exact ⟨⟨nonempty, others⟩, Nat.add_le_add_left size _⟩

/-- The tokens of a source and their texts fit the bytes of the source. -/
theorem lex_fits {source : String} {tokens : List Token} {names : Interner}
    (lexed : (lex Interner.empty source.toList).value = .ok (tokens, names)) :
    names.Sound ∧ (∀ final, Extends names final → widths final tokens ≤ source.utf8ByteSize) ∧
      names.arenaSize ≤ source.utf8ByteSize ∧ names.size ≤ source.utf8ByteSize := by
  obtain ⟨_, lexer, _, stepped, rfl, rfl⟩ := lex_behind lexed
  obtain ⟨nonempty, size⟩ := Scanned.ofText_size source.toList
  rw [String.utf8Len_toList] at size
  have begins : (Lexer.start Interner.empty).Fits 0 :=
    ⟨.empty, fun _ _ => Nat.le_refl _, Nat.le_refl _, Nat.le_refl _⟩
  have fits := begins.steps nonempty stepped
  rw [Nat.zero_add] at fits
  refine ⟨fits.sound, ?_, Nat.le_trans fits.arena size, Nat.le_trans fits.count size⟩
  intro final grown
  rw [widths_append]
  exact Nat.le_trans (fits.tokens final grown) size

end Source

end RegisterMachine
