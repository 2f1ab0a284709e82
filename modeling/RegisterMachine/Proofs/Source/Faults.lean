/-
This file proves why a source has no tokens. The scanner cuts it into longest matches up to its end
or up to a quote that nothing closes, and the first fault in the order of the text is the one that
is reported.
-/

import RegisterMachine.Proofs.Source.Lines

namespace RegisterMachine.Source

open Lexeme (write lines Readable)

namespace Tiles

variable {front back lexemes : List Lexeme} {text rest : List Char}

/-- Matches are cut after any of them. -/
theorem split (tiles : Tiles (front ++ back) text rest) :
    ∃ middle, Tiles front text middle ∧ Tiles back middle rest := by
  induction front generalizing text with
  | nil => exact ⟨text, .done text, tiles⟩
  | cons lexeme more inductionHypothesis =>
      cases tiles with
      | more longest others =>
          obtain ⟨middle, first, second⟩ := inductionHypothesis others
          exact ⟨middle, .more longest first, second⟩

theorem onOneLine (tiles : Tiles lexemes text rest) : ∀ lexeme ∈ lexemes, lexeme.OnOneLine := by
  have each := Scanned.ofText_onOneLine text
  rw [tiles.scanned] at each
  exact fun lexeme member => each lexeme (List.mem_append_left _ member)

/-- There is a line more than newlines. -/
theorem lines_length (tiles : Tiles lexemes text rest) :
    (lines lexemes).length = (write lexemes).count '\n' + 1 := by
  have each := tiles.onOneLine
  rw [Lexeme.lines_length]
  congr 1
  clear tiles
  induction lexemes with
  | nil => rfl
  | cons lexeme others inductionHypothesis =>
      rw [List.forall_mem_cons] at each
      rw [Lexeme.write_cons, List.count_append, List.countP_cons, inductionHypothesis each.2,
        each.1.count_newline, Nat.add_comm]
      simp only [decide_eq_true_eq]

end Tiles

/-- Why a source has no tokens: a first lexeme that cannot be read, or a quote that nothing closes
behind lexemes that can all be read. -/
inductive Faults (source : List Char) : LexError → Prop
  | malformed {before : List Lexeme} {lexeme : Lexeme} {rest : List Char}
      (tiles : Tiles (before ++ [lexeme]) source rest) (readable : Readable before)
      (fails : ¬Readable (before ++ [lexeme])) :
      Faults source
        (.malformed ((write before).count '\n' + 1) (String.ofList lexeme.text))
  | unexpected {lexemes : List Lexeme} {rest : List Char} (tiles : Tiles lexemes source rest)
      (readable : Readable lexemes) (unclosed : Unclosed rest) :
      Faults source
        (.unexpected ((write lexemes).count '\n' + 1) (String.ofList (shownUnclosed rest)))

/-- The lexer of a source that it reads to its end or to a quote that nothing closes. -/
theorem Tiles.lexer {lexemes : List Lexeme} {text rest : List Char}
    (tiles : Tiles lexemes text rest) (readable : Readable lexemes) (interner : Interner) :
    ∃ lexer, lexemes.foldlM Lexer.step (Lexer.start interner) = .ok lexer ∧
      lexer.line = (write lexemes).count '\n' + 1 := by
  obtain ⟨earlier, line, split, _⟩ := Lexeme.lines_split lexemes
  obtain ⟨lexer, stepped, covers⟩ := Lexer.steps_readable interner readable split
  refine ⟨lexer, stepped, ?_⟩
  rw [← tiles.lines_length, split, List.length_append, covers.number]
  rfl

/-- A source that has no tokens has a first fault. -/
theorem Faults.of_error {interner : Interner} {source : List Char} {error : LexError}
    (failed : (lex interner source).value = .error error) : Faults source error := by
  obtain ⟨rest, tiles, ends⟩ := Scanned.ofText_tiles source
  rw [lex_value] at failed
  by_cases readable : Readable (Scanned.ofText source).lexemes
  · obtain ⟨lexer, stepped, number⟩ := tiles.lexer readable interner
    rw [stepped] at failed
    rcases ends with ⟨clean, _⟩ | ⟨unclosed, unexpected⟩
    · rw [clean] at failed
      cases failed
    · rw [unexpected] at failed
      cases failed
      rw [number]
      exact .unexpected tiles readable unclosed
  · obtain ⟨before, lexeme, others, whole, front, fails⟩ := Lexeme.exists_unreadable readable
    rw [whole, List.append_cons] at tiles
    obtain ⟨middle, first, _⟩ := tiles.split
    obtain ⟨_, begins, _⟩ := first.split
    obtain ⟨log, stopped⟩ := Lexer.steps_unreadable interner front fails others
    rw [whole, stopped] at failed
    cases failed
    rw [begins.lines_length]
    exact .malformed first front fails

/-- A fault is reported, since no other one comes before it. -/
theorem Faults.reported {source : List Char} {error : LexError} (faults : Faults source error)
    (interner : Interner) : (lex interner source).value = .error error := by
  rw [lex_value]
  cases faults with
  | @malformed before lexeme rest tiles readable fails =>
      obtain ⟨_, begins, _⟩ := tiles.split
      obtain ⟨log, stopped⟩ :=
        Lexer.steps_unreadable interner readable fails (Scanned.ofText rest).lexemes
      rw [tiles.scanned, Scanned.behind, ← List.append_cons, stopped, begins.lines_length]
      rfl
  | unexpected tiles readable unclosed =>
      obtain ⟨lexer, stepped, number⟩ := tiles.lexer readable interner
      rw [tiles.unclosed unclosed, stepped, ← number]
      rfl

/-- How a source is cut into lexemes, and which of its faults is reported. -/
structure Partitions (interner : Interner) (source : List Char) : Prop where
  /-- The lexemes are the longest matches, one after the other from the front of the source. -/
  tiles : ∃ rest, Tiles (Scanned.ofText source).lexemes source rest ∧
    source = write (Scanned.ofText source).lexemes ++ rest ∧ (rest = [] ∨ Unclosed rest)
  nonempty : ∀ lexeme ∈ (Scanned.ofText source).lexemes, lexeme.text ≠ []
  whole : (Scanned.ofText source).unexpected = none →
    write (Scanned.ofText source).lexemes = source
  /-- No lexeme is found behind a quote that nothing closes. -/
  stops : ∀ lexemes rest, Tiles lexemes source rest → Unclosed rest →
    (Scanned.ofText source).lexemes = lexemes
  unexpected : ∀ line text, (lex interner source).value = .error (.unexpected line text) ↔
    ∃ lexemes rest, Tiles lexemes source rest ∧ Unclosed rest ∧ Readable lexemes ∧
      line = (write lexemes).count '\n' + 1 ∧ text = String.ofList (shownUnclosed rest)
  malformed : ∀ line text, (lex interner source).value = .error (.malformed line text) ↔
    ∃ before lexeme rest, Tiles (before ++ [lexeme]) source rest ∧ Readable before ∧
      ¬Readable (before ++ [lexeme]) ∧
      line = (write before).count '\n' + 1 ∧ text = String.ofList lexeme.text

/-- The scanner cuts a source into longest matches up to its first quote that nothing closes, and
the lexer reports this quote unless a lexeme before it cannot be read. -/
theorem lex_partitions (interner : Interner) (source : List Char) : Partitions interner source := by
  obtain ⟨rest, tiles, ends⟩ := Scanned.ofText_tiles source
  obtain ⟨whole, nonempty⟩ := tiles.partition
  constructor
  · exact ⟨rest, tiles, whole, ends.imp And.right And.left⟩
  · exact nonempty
  · intro clean
    exact Scanned.write_ofText clean
  · intro lexemes rest tiles unclosed
    rw [tiles.unclosed unclosed]
  · intro line text
    constructor
    · intro failed
      cases Faults.of_error failed with
      | unexpected tiles readable unclosed => exact ⟨_, _, tiles, unclosed, readable, rfl, rfl⟩
    · rintro ⟨lexemes, rest, tiles, unclosed, readable, rfl, rfl⟩
      exact (Faults.unexpected tiles readable unclosed).reported interner
  · intro line text
    constructor
    · intro failed
      cases Faults.of_error failed with
      | malformed tiles readable fails => exact ⟨_, _, _, tiles, readable, fails, rfl, rfl⟩
    · rintro ⟨before, lexeme, rest, tiles, readable, fails, rfl, rfl⟩
      exact (Faults.malformed tiles readable fails).reported interner

end RegisterMachine.Source
