/-
This file proves that text is scanned line by line. No lexeme goes past the end of its line, so the
lexemes of a text are the same whatever is written on the lines after it.
-/

import Mathlib.Data.List.TakeWhile
import Mathlib.Tactic.SplitIfs
import RegisterMachine.Source.Lexeme

namespace RegisterMachine.Source

section Prefixes

variable {α : Type} {continues : α → Bool} {stop : α}

theorem takeWhile_append_stop (stops : continues stop = false) (front back : List α) :
    (front ++ stop :: back).takeWhile continues = front.takeWhile continues := by
  induction front with
  | nil => simp [stops]
  | cons first rest inductionHypothesis => simp [List.takeWhile_cons, inductionHypothesis]

theorem dropWhile_append_stop (stops : continues stop = false) (front back : List α) :
    (front ++ stop :: back).dropWhile continues =
      front.dropWhile continues ++ stop :: back := by
  induction front with
  | nil => simp [stops]
  | cons first rest inductionHypothesis =>
      cases goesOn : continues first <;> simp [goesOn, inductionHypothesis]

end Prefixes

namespace Lexeme

/-- A lexeme is a newline, or it has no newline in it. -/
def OnOneLine (lexeme : Lexeme) : Prop :=
  lexeme.kind = .newline ∧ lexeme.text = ['\n'] ∨ lexeme.kind ≠ .newline ∧ '\n' ∉ lexeme.text

theorem OnOneLine.count_newline {lexeme : Lexeme} (onOneLine : lexeme.OnOneLine) :
    lexeme.text.count '\n' = if lexeme.kind = .newline then 1 else 0 := by
  rcases onOneLine with ⟨kind, text⟩ | ⟨kind, none⟩
  · simp [kind, text]
  · simp [kind, List.count_eq_zero_of_not_mem none]

end Lexeme

namespace Front

variable {first : Char} {rest after more : List Char} {lexeme : Lexeme}

theorem run_beforeLine {kind : LexemeKind} {continues : Char → Bool}
    (stops : continues '\n' = false)
    (found : run kind first continues rest = .lexeme lexeme after) :
    run kind first continues (rest ++ '\n' :: more) = .lexeme lexeme (after ++ '\n' :: more) := by
  cases found
  rw [run, takeWhile_append_stop stops, dropWhile_append_stop stops]

theorem quotedString_beforeLine (found : quotedString rest = .lexeme lexeme after) :
    quotedString (rest ++ '\n' :: more) = .lexeme lexeme (after ++ '\n' :: more) := by
  unfold quotedString at found ⊢
  dsimp only at found ⊢
  rw [takeWhile_append_stop (by decide), dropWhile_append_stop (by decide)]
  split at found
  · rename_i inside
    cases found
    rw [inside]
    rfl
  · cases found

theorem quotedChar_beforeLine (found : quotedChar rest = .lexeme lexeme after) :
    quotedChar (rest ++ '\n' :: more) = .lexeme lexeme (after ++ '\n' :: more) := by
  unfold quotedChar at found
  split at found
  · cases found
  split at found
  · cases found
  rename_i inside
  split at found
  · cases found
    exact if_neg inside
  · cases found

/-- A run goes on for as long as it can. -/
theorem run_ends {kind : LexemeKind} {continues : Char → Bool} {others : List Char}
    (inside : ∀ character ∈ others, continues character)
    (ends : ∀ next ∈ rest.head?, continues next = false) :
    run kind first continues (others ++ rest) = .lexeme ⟨kind, first :: others⟩ rest := by
  have stops : rest.takeWhile continues = [] ∧ rest.dropWhile continues = rest := by
    cases rest with
    | nil => exact ⟨rfl, rfl⟩
    | cons next more =>
        have stop := ends next rfl
        simp [stop]
  rw [run, List.takeWhile_append_of_pos inside, List.dropWhile_append_of_pos inside, stops.1,
    stops.2, List.append_nil]

/-- A character that a word can have begins a word. -/
theorem of_word (word : Lexeme.isWordCharacter first) :
    of first rest = run .word first Lexeme.isWordCharacter rest := by
  simp only [Lexeme.isWordCharacter, Bool.not_eq_true', Bool.or_eq_false_iff,
    beq_eq_false_iff_ne] at word
  simp [of, word]

/-- What stands on later lines does not change the lexeme at the front. -/
theorem of_beforeLine (found : of first rest = .lexeme lexeme after) :
    of first (rest ++ '\n' :: more) = .lexeme lexeme (after ++ '\n' :: more) := by
  unfold of at found ⊢
  split_ifs at found ⊢
  · exact run_beforeLine (by decide) found
  · exact run_beforeLine (by decide) found
  · cases found
    rfl
  · cases found
    rfl
  · exact quotedString_beforeLine found
  · exact quotedChar_beforeLine found
  · exact run_beforeLine (by decide) found

theorem run_onOneLine {kind : LexemeKind} {continues : Char → Bool} (other : kind ≠ .newline)
    (begins : first ≠ '\n') (stops : continues '\n' = false)
    (found : run kind first continues rest = .lexeme lexeme after) : lexeme.OnOneLine := by
  cases found
  refine .inr ⟨other, fun member => ?_⟩
  rcases List.mem_cons.mp member with same | inside
  · exact begins same.symm
  · have goesOn := List.mem_takeWhile_imp inside
    rw [stops] at goesOn
    cases goesOn

theorem quotedString_onOneLine (found : quotedString rest = .lexeme lexeme after) :
    lexeme.OnOneLine := by
  unfold quotedString at found
  dsimp only at found
  split at found
  · cases found
    have other : LexemeKind.quotedString ≠ .newline := by decide
    refine .inr ⟨other, fun member => ?_⟩
    simp only [List.mem_cons, List.mem_append, List.not_mem_nil, or_false] at member
    rcases member with quote | inside | quote
    · cases quote
    · have goesOn := List.mem_takeWhile_imp inside
      cases goesOn
    · cases quote
  · cases found

theorem quotedChar_onOneLine (found : quotedChar rest = .lexeme lexeme after) :
    lexeme.OnOneLine := by
  unfold quotedChar at found
  split at found
  · cases found
  split at found
  · cases found
  rename_i inside
  split at found
  · cases found
    have other : LexemeKind.quotedChar ≠ .newline := by decide
    exact .inr ⟨other, by simpa using Ne.symm inside⟩
  · cases found

theorem of_onOneLine (found : of first rest = .lexeme lexeme after) : lexeme.OnOneLine := by
  unfold of at found
  split_ifs at found with blank comment newline comma
  · apply run_onOneLine (by decide) _ (by decide) found
    rintro rfl
    cases blank
  · apply run_onOneLine (by decide) _ (by decide) found
    rintro rfl
    cases comment
  · cases found
    exact .inl ⟨rfl, by rw [newline]⟩
  · cases found
    have other : LexemeKind.comma ≠ .newline := by decide
    exact .inr ⟨other, by simp [comma]⟩
  · exact quotedString_onOneLine found
  · exact quotedChar_onOneLine found
  · exact run_onOneLine (by decide) newline (by decide) found

end Front

namespace Scanned

variable {before : Array Lexeme} {first : Char} {rest after : List Char} {lexeme : Lexeme}

theorem ofTextAfter_unexpected {characters : List Char}
    (found : Front.of first rest = .unexpected characters) :
    ofTextAfter before (first :: rest) = ⟨before.toList, some characters⟩ := by
  unfold ofTextAfter
  split <;> simp_all

theorem ofTextAfter_lexeme (found : Front.of first rest = .lexeme lexeme after) :
    ofTextAfter before (first :: rest) = ofTextAfter (before.push lexeme) after := by
  rw [ofTextAfter]
  split <;> simp_all

/-- A text is empty, or it begins with no lexeme, or with one that another text follows. -/
@[elab_as_elim]
theorem text_induction {motive : List Char → Prop} (text : List Char) (empty : motive [])
    (unexpected : ∀ first rest characters, Front.of first rest = .unexpected characters →
      motive (first :: rest))
    (follows : ∀ first rest lexeme after, Front.of first rest = .lexeme lexeme after →
      motive after → motive (first :: rest)) : motive text := by
  induction length : text.length using Nat.strongRecOn generalizing text with
  | ind size inductionHypothesis =>
      cases text with
      | nil => exact empty
      | cons first rest =>
          cases found : Front.of first rest with
          | unexpected characters => exact unexpected first rest characters found
          | lexeme lexeme after =>
              have shorter : after.length < size := by
                rw [← length]
                exact Front.ofRestShorter found
              exact follows first rest lexeme after found
                (inductionHypothesis after.length shorter after rfl)

/-- The lexemes that were found before stay in front. -/
theorem ofTextAfter_eq (before : Array Lexeme) (text : List Char) :
    ofTextAfter before text =
      ⟨before.toList ++ (ofText text).lexemes, (ofText text).unexpected⟩ := by
  induction text using text_induction generalizing before with
  | empty => simp [ofText, ofTextAfter]
  | unexpected first rest characters found =>
      rw [ofText, ofTextAfter_unexpected found, ofTextAfter_unexpected found]
      simp
  | follows first rest lexeme after found inductionHypothesis =>
      rw [ofText, ofTextAfter_lexeme found, ofTextAfter_lexeme found, inductionHypothesis,
        inductionHypothesis]
      simp

theorem ofText_nil : ofText [] = ⟨[], none⟩ := by
  rw [ofText, ofTextAfter]

theorem ofText_unexpected {characters : List Char}
    (found : Front.of first rest = .unexpected characters) :
    ofText (first :: rest) = ⟨[], some characters⟩ :=
  ofTextAfter_unexpected found

theorem ofText_lexeme (found : Front.of first rest = .lexeme lexeme after) :
    ofText (first :: rest) = ⟨lexeme :: (ofText after).lexemes, (ofText after).unexpected⟩ := by
  rw [ofText, ofTextAfter_lexeme found, ofTextAfter_eq]
  rfl

theorem ofText_newline (text : List Char) :
    ofText ('\n' :: text) =
      ⟨⟨.newline, ['\n']⟩ :: (ofText text).lexemes, (ofText text).unexpected⟩ :=
  ofText_lexeme rfl

/-- Scanning goes on after a newline as at the beginning of a text, unless it stopped before. -/
theorem ofText_append {front : List Char} (clean : (ofText front).unexpected = none)
    (back : List Char) :
    ofText (front ++ '\n' :: back) =
      ⟨(ofText front).lexemes ++ ⟨.newline, ['\n']⟩ :: (ofText back).lexemes,
        (ofText back).unexpected⟩ := by
  induction front using text_induction with
  | empty =>
      rw [ofText_nil]
      exact ofText_newline back
  | unexpected first rest characters found =>
      rw [ofText_unexpected found] at clean
      cases clean
  | follows first rest lexeme after found inductionHypothesis =>
      rw [ofText_lexeme found] at clean ⊢
      rw [List.cons_append, ofText_lexeme (Front.of_beforeLine found), inductionHypothesis clean]
      rfl

theorem ofText_onOneLine (text : List Char) :
    ∀ lexeme ∈ (ofText text).lexemes, lexeme.OnOneLine := by
  induction text using text_induction with
  | empty => simp [ofText_nil]
  | unexpected first rest characters found => simp [ofText_unexpected found]
  | follows first rest lexeme after found inductionHypothesis =>
      rw [ofText_lexeme found, List.forall_mem_cons]
      exact ⟨Front.of_onOneLine found, inductionHypothesis⟩

/-- Each newline of a text that is scanned to its end is a lexeme. -/
theorem countP_newline {text : List Char} (clean : (ofText text).unexpected = none) :
    (ofText text).lexemes.countP (fun lexeme => lexeme.kind = .newline) = text.count '\n' := by
  induction text using text_induction with
  | empty => simp [ofText_nil]
  | unexpected first rest characters found =>
      rw [ofText_unexpected found] at clean
      cases clean
  | follows first rest lexeme after found inductionHypothesis =>
      rw [ofText_lexeme found] at clean ⊢
      rw [(Front.ofPartition found).1, List.count_append, List.countP_cons,
        inductionHypothesis clean, Nat.add_comm, (Front.of_onOneLine found).count_newline]
      simp only [decide_eq_true_eq]

end Scanned

end RegisterMachine.Source
