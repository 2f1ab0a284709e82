/-
This file proves that text is turned into tokens line by line. Behind other lines a text has the
tokens that it has alone, with symbols for the same texts, and the same errors further down.
-/

import RegisterMachine.Proofs.Source.Alike
import RegisterMachine.Proofs.Source.Scanning

namespace RegisterMachine.Source

open Interner (Extends Sound)

/-- The same error further down in the source. -/
def LexError.shifted (distance : Nat) : LexError → LexError
  | malformed line text => .malformed (line + distance) text
  | unexpected line text => .unexpected (line + distance) text

section Readings

variable {first second : Interner}

theorem Token.ofReading_grown (sound : Sound first) (reading : Reading) :
    (ofReading first reading).2.Sound ∧ Extends first (ofReading first reading).2 := by
  cases reading with
  | comma | endOfLine | register | directive | integer | char => exact ⟨sound, .refl first⟩
  | string text | identifier text => exact ⟨(sound.intern text).1, (sound.intern text).2.1⟩

theorem Token.ofReading_alike (sound : Sound first) (soundOther : Sound second)
    (reading : Reading) :
    Token.Alike (ofReading first reading).2 (ofReading second reading).2
      (ofReading first reading).1 (ofReading second reading).1 := by
  cases reading with
  | comma | endOfLine | register | directive | integer | char => exact .plain _ rfl
  | string text => exact .string ⟨text, (sound.intern text).2.2, (soundOther.intern text).2.2⟩
  | identifier text =>
      exact .identifier ⟨text, (sound.intern text).2.2, (soundOther.intern text).2.2⟩

theorem Token.ofReading_ne_end (interner : Interner) (reading : Reading) :
    (ofReading interner reading).1 ≠ .endOfFile := by
  cases reading <;> nofun

theorem Token.ofReading_endOfLine {interner : Interner} {reading : Reading}
    (ends : (ofReading interner reading).1 = .endOfLine) : reading = .endOfLine := by
  cases reading <;> first | rfl | cases ends

end Readings

theorem Reading.ofOrdinary?_ne_endOfLine (characters : List Char) :
    ofOrdinary? characters ≠ some .endOfLine := by
  unfold ofOrdinary? directive? integer?
  split_ifs <;> simp

/-- Only a newline ends a line. -/
theorem Reading.of?_endOfLine {characters : List Char}
    (read : of? characters = some .endOfLine) : characters = ['\n'] := by
  unfold of? at read
  split_ifs at read with comma newline
  · cases read
  · exact newline
  · split at read
    · cases read
    · exact absurd read (ofOrdinary?_ne_endOfLine characters)

namespace Lexer

variable {first second : Lexer} {front : List Token} {distance : Nat}

/-- Two lexers in the same place of a line, the second one with other tokens before and further
down. -/
structure Alike (front : List Token) (distance : Nat) (first second : Lexer) : Prop where
  sound : first.interner.Sound
  soundOther : second.interner.Sound
  line : second.line = first.line + distance
  onLine : second.onLine = first.onLine
  tokens : ∃ back, second.tokens.toList = front ++ back ∧
    List.Forall₂ (Token.Alike first.interner second.interner) first.tokens.toList back

/-- The second lexer stops on the same text further down. -/
def Shifts (distance : Nat) (reason other : Array Diagnostic × LexError) : Prop :=
  other.2 = reason.2.shifted distance

theorem push_alike {later last : Interner} {tokens others : Array Token} {token other : Token}
    (alike : ∃ back, others.toList = front ++ back ∧
      List.Forall₂ (Token.Alike later last) tokens.toList back)
    (same : Token.Alike later last token other) :
    ∃ back, (others.push other).toList = front ++ back ∧
      List.Forall₂ (Token.Alike later last) (tokens.push token).toList back := by
  obtain ⟨back, whole, alike⟩ := alike
  refine ⟨back ++ [other], ?_, ?_⟩
  · rw [Array.toList_push, whole, List.append_assoc]
  · rw [Array.toList_push]
    exact List.rel_append alike (.cons same .nil)

theorem take_alike (alike : Alike front distance first second) (characters : List Char) :
    Corresponds (Alike front distance) (Shifts distance) (first.take characters)
      (second.take characters) := by
  obtain ⟨sound, soundOther, line, onLine, back, whole, tokens⟩ := alike
  unfold Lexer.take classify
  cases read : Reading.of? characters with
  | none =>
      apply Corresponds.error
      rw [Shifts, line]
      rfl
  | some reading =>
      obtain ⟨soundLater, grown⟩ := Token.ofReading_grown sound reading
      obtain ⟨soundLast, grownOther⟩ := Token.ofReading_grown soundOther reading
      refine .ok ⟨soundLater, soundLast, line, congrArg (· + 1) onLine, push_alike ?_ ?_⟩
      · exact ⟨back, whole, tokens.imp fun _ _ alike => alike.mono grown grownOther⟩
      · exact Token.ofReading_alike sound soundOther reading

theorem step_alike (alike : Alike front distance first second) (lexeme : Lexeme) :
    Corresponds (Alike front distance) (Shifts distance) (first.step lexeme)
      (second.step lexeme) := by
  unfold Lexer.step
  rw [alike.onLine]
  split_ifs
  · exact .ok alike
  · refine .ok ⟨alike.sound, alike.soundOther, ?_, rfl, push_alike alike.tokens (.plain _ rfl)⟩
    rw [newline, newline, alike.line]
    exact Nat.add_right_comm _ _ _
  · exact take_alike alike lexeme.text
  · refine .ok ⟨alike.sound, alike.soundOther, alike.line, ?_, alike.tokens⟩
    rw [drop, drop, alike.onLine]

theorem steps_alike (alike : Alike front distance first second) (lexemes : List Lexeme) :
    Corresponds (Alike front distance) (Shifts distance) (lexemes.foldlM Lexer.step first)
      (lexemes.foldlM Lexer.step second) := by
  induction lexemes generalizing first second with
  | nil => exact .ok alike
  | cons lexeme rest inductionHypothesis =>
      rw [List.foldlM_cons, List.foldlM_cons]
      exact (step_alike alike lexeme).bind fun _ _ later => inductionHypothesis later

/-- A lexer behind some newlines, with a token for each. -/
structure Behind (newlines : Nat) (lexer : Lexer) : Prop where
  sound : lexer.interner.Sound
  line : lexer.line = newlines + 1
  lineEnds : lexer.tokens.toList.count .endOfLine = newlines
  notEnd : ∀ token ∈ lexer.tokens.toList, token ≠ .endOfFile

theorem push_notEnd {tokens : Array Token} {token : Token}
    (notEnd : ∀ other ∈ tokens.toList, other ≠ .endOfFile) (last : token ≠ .endOfFile) :
    ∀ other ∈ (tokens.push token).toList, other ≠ .endOfFile := by
  intro other member
  rw [Array.toList_push, List.mem_append, List.mem_singleton] at member
  rcases member with earlier | same
  · exact notEnd other earlier
  · rw [same]
    exact last

theorem push_count (tokens : Array Token) (token : Token) :
    (tokens.push token).toList.count .endOfLine =
      tokens.toList.count .endOfLine + if token = .endOfLine then 1 else 0 := by
  rw [Array.toList_push, List.count_append, List.count_singleton]
  simp only [beq_iff_eq]

theorem Behind.take {newlines : Nat} {lexer after : Lexer} {characters : List Char}
    (behind : Behind newlines lexer) (onLine : characters ≠ ['\n'])
    (taken : lexer.take characters = .ok after) :
    Behind newlines after ∧ Extends lexer.interner after.interner := by
  unfold Lexer.take classify at taken
  cases read : Reading.of? characters with
  | none =>
      rw [read] at taken
      cases taken
  | some reading =>
      rw [read] at taken
      cases taken
      obtain ⟨sound, grown⟩ := Token.ofReading_grown behind.sound reading
      have goesOn : (Token.ofReading lexer.interner reading).1 ≠ .endOfLine := by
        intro ends
        rw [Token.ofReading_endOfLine ends] at read
        exact onLine (Reading.of?_endOfLine read)
      refine ⟨⟨sound, behind.line, ?_, ?_⟩, grown⟩
      · exact (push_count _ _).trans ((if_neg goesOn).symm ▸ behind.lineEnds)
      · exact push_notEnd behind.notEnd (Token.ofReading_ne_end _ _)

/-- A step counts a newline, and goes on in the same line otherwise. -/
theorem Behind.step {newlines : Nat} {lexer after : Lexer} {lexeme : Lexeme}
    (behind : Behind newlines lexer) (onOneLine : lexeme.OnOneLine)
    (stepped : lexer.step lexeme = .ok after) :
    Behind (newlines + if lexeme.kind = .newline then 1 else 0) after ∧
      Extends lexer.interner after.interner := by
  unfold Lexer.step at stepped
  split_ifs at stepped with skipped ends kept
  · have goesOn : lexeme.kind ≠ .newline := by
      intro ends
      rw [Lexeme.isSkipped, ends] at skipped
      cases skipped
    cases stepped
    rw [if_neg goesOn]
    exact ⟨behind, .refl _⟩
  · cases stepped
    rw [if_pos ends]
    refine ⟨⟨behind.sound, congrArg (· + 1) behind.line, ?_, ?_⟩, .refl _⟩
    · exact (push_count _ _).trans (congrArg (· + 1) behind.lineEnds)
    · exact push_notEnd behind.notEnd nofun
  · rw [if_neg ends]
    apply behind.take _ stepped
    rcases onOneLine with ⟨kind, _⟩ | ⟨_, inside⟩
    · exact absurd kind ends
    · intro whole
      simp [whole] at inside
  · cases stepped
    rw [if_neg ends]
    exact ⟨⟨behind.sound, behind.line, behind.lineEnds, behind.notEnd⟩, .refl _⟩

theorem Behind.steps {newlines : Nat} {lexer after : Lexer} {lexemes : List Lexeme}
    (behind : Behind newlines lexer) (onOneLine : ∀ lexeme ∈ lexemes, lexeme.OnOneLine)
    (stepped : lexemes.foldlM Lexer.step lexer = .ok after) :
    Behind (newlines + lexemes.countP fun lexeme => lexeme.kind = .newline) after ∧
      Extends lexer.interner after.interner := by
  induction lexemes generalizing lexer newlines with
  | nil =>
      cases stepped
      exact ⟨behind, .refl _⟩
  | cons lexeme rest inductionHypothesis =>
      rw [List.forall_mem_cons] at onOneLine
      rw [List.foldlM_cons] at stepped
      obtain ⟨next, first, others⟩ := bindOk stepped
      obtain ⟨later, grown⟩ := behind.step onOneLine.1 first
      obtain ⟨last, grownLast⟩ := inductionHypothesis later onOneLine.2 others
      refine ⟨?_, grown.trans grownLast⟩
      have count : (newlines + if lexeme.kind = .newline then 1 else 0) +
          rest.countP (fun lexeme => lexeme.kind = .newline) =
          newlines + (lexeme :: rest).countP fun lexeme => lexeme.kind = .newline := by
        rw [List.countP_cons]
        simp only [decide_eq_true_eq]
        omega
      rw [← count]
      exact last

/-- Behind a newline a lexer is where it is at the beginning of a source. -/
theorem Behind.newline_alike {newlines : Nat} {lexer : Lexer} (behind : Behind newlines lexer) :
    Alike (lexer.tokens.toList ++ [.endOfLine]) (1 + newlines) (start Interner.empty)
      lexer.newline where
  sound := .empty
  soundOther := behind.sound
  line := by
    have next : lexer.newline.line = newlines + 1 + 1 := congrArg (· + 1) behind.line
    rw [next, start]
    dsimp only
    omega
  onLine := rfl
  tokens := ⟨[], by rw [List.append_nil]; exact Array.toList_push, .nil⟩

/-- What becomes of the text behind the lexemes. -/
def finish (unexpected : Option (List Char)) :
    Except (Array Diagnostic × LexError) Lexer → Except LexError (List Token × Interner)
  | .error (_, error) => .error error
  | .ok lexer =>
      match unexpected with
      | some characters => .error (.unexpected lexer.line (String.ofList characters))
      | none => .ok (lexer.tokens.toList ++ [.endOfFile], lexer.interner)

end Lexer

theorem lex_value (interner : Interner) (source : List Char) :
    (lex interner source).value =
      Lexer.finish (Scanned.ofText source).unexpected
        ((Scanned.ofText source).lexemes.foldlM Lexer.step (Lexer.start interner)) := by
  unfold lex
  dsimp only
  cases (Scanned.ofText source).lexemes.foldlM Lexer.step (Lexer.start interner) with
  | error reason => rfl
  | ok lexer =>
      cases (Scanned.ofText source).unexpected with
      | some characters => rfl
      | none => exact congrArg (fun tokens => Except.ok (tokens, _)) Array.toList_push

/-- The lexer of a source that has tokens: all of the source is cut into lexemes, and the end of
file follows the tokens of the lexer. -/
theorem lex_behind {source : List Char} {tokens : List Token} {names : Interner}
    (done : (lex Interner.empty source).value = .ok (tokens, names)) :
    (Scanned.ofText source).unexpected = none ∧ ∃ lexer : Lexer,
      lexer.Behind (source.count '\n') ∧
      (Scanned.ofText source).lexemes.foldlM Lexer.step (Lexer.start Interner.empty) =
        .ok lexer ∧
      tokens = lexer.tokens.toList ++ [.endOfFile] ∧ names = lexer.interner := by
  rw [lex_value] at done
  unfold Lexer.finish at done
  split at done
  · cases done
  · rename_i lexer stepped
    split at done
    · cases done
    · rename_i clean
      cases done
      have begins : Lexer.Behind 0 (Lexer.start Interner.empty) :=
        ⟨.empty, rfl, rfl, by simp [Lexer.start]⟩
      obtain ⟨behind, _⟩ := begins.steps (Scanned.ofText_onOneLine source) stepped
      rw [Nat.zero_add, Scanned.countP_newline clean] at behind
      exact ⟨clean, lexer, behind, stepped, rfl, rfl⟩

/-- What the tokens of a text behind other lines have in common with those that it has alone. -/
structure LexedBehind (front : List Token) (names : Interner)
    (alone whole : List Token × Interner) : Prop where
  sound : alone.2.Sound
  soundWhole : whole.2.Sound
  grown : Extends names whole.2
  tokens : ∃ back, whole.1 = front ++ .endOfLine :: back ∧
    List.Forall₂ (Token.Alike alone.2 whole.2) alone.1 back

/-- Lexers that are alike finish alike. -/
theorem Lexer.finish_alike {front : List Token} {names : Interner} {distance : Nat}
    {first second : Except (Array Diagnostic × LexError) Lexer}
    (steps : Corresponds (Alike (front ++ [.endOfLine]) distance) (Shifts distance) first second)
    (grown : ∀ lexer, second = .ok lexer → Extends names lexer.interner)
    (unexpected : Option (List Char)) :
    Corresponds (LexedBehind front names) (fun error other => other = error.shifted distance)
      (finish unexpected first) (finish unexpected second) := by
  cases steps with
  | error shifts => exact .error shifts
  | @ok _ lexer alike =>
      obtain ⟨sound, soundWhole, line, _, back, split, same⟩ := alike
      cases unexpected with
      | some characters =>
          apply Corresponds.error
          rw [line]
          rfl
      | none =>
          refine .ok ⟨sound, soundWhole, grown lexer rfl, back ++ [.endOfFile], ?_, ?_⟩
          · rw [split]
            simp only [List.append_assoc, List.cons_append, List.nil_append]
          · exact List.rel_append same (.cons (.plain .endOfFile rfl) .nil)

/-- Tokens come line by line: those of the first lines, a line end, and then the tokens that the
other lines have alone. -/
theorem lex_append {front : List Char} {before : List Token} {names : Interner}
    (done : (lex Interner.empty front).value = .ok (before ++ [.endOfFile], names))
    (back : List Char) :
    Corresponds (LexedBehind before names)
      (fun error other => other = error.shifted (1 + front.count '\n'))
      (lex Interner.empty back).value (lex Interner.empty (front ++ '\n' :: back)).value := by
  obtain ⟨clean, lexer, behind, stepped, tokens, rfl⟩ := lex_behind done
  obtain rfl := List.append_cancel_right tokens
  have newline : lexer.step ⟨.newline, ['\n']⟩ = .ok lexer.newline := rfl
  obtain ⟨behindLine, _⟩ := behind.step (.inl ⟨rfl, rfl⟩) newline
  rw [lex_value, lex_value, Scanned.ofText_append clean, List.foldlM_append, stepped, okBind,
    List.foldlM_cons, newline, okBind]
  refine Lexer.finish_alike (Lexer.steps_alike behind.newline_alike _) ?_ _
  intro last steppedWhole
  exact (behindLine.steps (Scanned.ofText_onOneLine back) steppedWhole).2

end RegisterMachine.Source
