/-
This file proves that a source is lexed line by line, and that a line loses what is past its first
lexemes and nothing else.
-/

import RegisterMachine.Proofs.Source.Faults

namespace RegisterMachine

/-- A report on a line that has too many lexemes. -/
def Diagnostic.isTruncation : Diagnostic → Bool
  | .lineTruncated _ => true
  | _ => false

namespace Source

open Lexeme (lines readings lineReports significant LineReadable Readable)

/-- A text is one line, or a line with a text behind it. -/
@[elab_as_elim]
theorem line_induction {motive : List Char → Prop} (text : List Char)
    (last : ∀ line, '\n' ∉ line → motive line)
    (further : ∀ line rest, '\n' ∉ line → motive rest → motive (line ++ '\n' :: rest)) :
    motive text := by
  induction length : text.length using Nat.strongRecOn generalizing text with
  | ind size inductionHypothesis =>
      by_cases newline : '\n' ∈ text
      · obtain ⟨line, rest, rfl, inLine⟩ := List.eq_append_cons_of_mem newline
        have shorter : rest.length < size := by
          rw [← length, List.length_append, List.length_cons]
          omega
        exact further line rest inLine (inductionHypothesis rest.length shorter rest rfl)
      · exact last text newline

/-- A quote that nothing closes on its line is not closed on the next one. -/
theorem Unclosed.beforeLine {text : List Char} (unclosed : Unclosed text) (more : List Char) :
    Unclosed (text ++ '\n' :: more) := by
  rcases unclosed with ⟨rest, rfl, noQuote⟩ | ⟨rest, rfl, ends⟩
  · refine .inl ⟨rest ++ '\n' :: more, rfl, ?_⟩
    rwa [takeWhile_append_stop (by decide)]
  · refine .inr ⟨rest ++ '\n' :: more, rfl, fun character after whole => ?_⟩
    match rest with
    | [] => exact (List.cons.inj whole).1.symm
    | [other] => cases (List.cons.inj (List.cons.inj whole).2).1
    | other :: quote :: others =>
        obtain ⟨rfl, behind⟩ := List.cons.inj whole
        obtain ⟨rfl, _⟩ := List.cons.inj behind
        exact ends other others rfl

namespace Scanned

theorem stops_append {front : List Char} (stops : (ofText front).unexpected ≠ none)
    (back : List Char) : (ofText (front ++ '\n' :: back)).unexpected ≠ none := by
  induction front using text_induction with
  | empty =>
      rw [ofText_nil] at stops
      exact absurd rfl stops
  | unexpected first rest characters found =>
      have unclosed := (Front.unclosed_of found).beforeLine back
      rw [List.cons_append] at unclosed ⊢
      rw [ofText_unexpected (Front.of_unclosed unclosed)]
      nofun
  | follows first rest lexeme after found inductionHypothesis =>
      rw [ofText_lexeme found] at stops
      rw [List.cons_append, ofText_lexeme (Front.of_beforeLine found)]
      exact inductionHypothesis stops

/-- A text is scanned to its end if each of its lines is. -/
theorem clean_iff (source : List Char) :
    (ofText source).unexpected = none ↔
      ∀ line ∈ source.splitOn '\n', (ofText line).unexpected = none := by
  induction source using line_induction with
  | last line inLine => rw [List.splitOn_eq_singleton inLine, List.forall_mem_singleton]
  | further line rest inLine inductionHypothesis =>
      rw [List.splitOn_append_cons_self_of_not_mem inLine, List.forall_mem_cons,
        ← inductionHypothesis]
      by_cases clean : (ofText line).unexpected = none
      · rw [ofText_append clean, and_iff_right clean]
      · have stops := stops_append clean rest
        exact ⟨fun ends => absurd ends stops, fun ends => absurd ends.1 clean⟩

end Scanned

/-- The lexemes of each line of a source. -/
def sourceLines (source : List Char) : List (List Lexeme) :=
  (source.splitOn '\n').map fun line => (Scanned.ofText line).lexemes

namespace Scanned

theorem ofText_inLine {line : List Char} (clean : (ofText line).unexpected = none)
    (inLine : '\n' ∉ line) :
    ∀ lexeme ∈ (ofText line).lexemes, decide (lexeme.kind = .newline) = false := by
  have none := countP_newline clean
  rw [List.count_eq_zero_of_not_mem inLine, List.countP_eq_zero] at none
  intro lexeme member
  exact Bool.eq_false_of_not_eq_true (none lexeme member)

/-- The lexemes between two newlines are those of the line that stands there. -/
theorem lines_ofText {source : List Char} (clean : (ofText source).unexpected = none) :
    lines (ofText source).lexemes = sourceLines source := by
  unfold lines sourceLines
  induction source using line_induction with
  | last line inLine =>
      rw [List.splitOn_eq_singleton inLine, List.splitOnP_eq_singleton (ofText_inLine clean inLine)]
      rfl
  | further line rest inLine inductionHypothesis =>
      have whole := (clean_iff _).mp clean
      rw [List.splitOn_append_cons_self_of_not_mem inLine] at whole ⊢
      rw [List.forall_mem_cons, ← clean_iff] at whole
      rw [ofText_append whole.1, List.map_cons, ← inductionHypothesis whole.2]
      exact List.splitOnP_append_cons_of_forall_mem (ofText_inLine whole.1 inLine) _ rfl _

end Scanned

theorem intercalate_cons {α : Type} (separator : α) (first : List α) (others : List (List α)) :
    [separator].intercalate (first :: others) = first ++ others.flatMap (separator :: ·) := by
  induction others generalizing first with
  | nil => simp [List.intercalate]
  | cons second rest inductionHypothesis =>
      rw [List.intercalate_cons_cons, inductionHypothesis, List.flatMap_cons, List.append_assoc]
      rfl

theorem intercalate_concat {α : Type} (separator : α) (front : List (List α)) (last : List α) :
    [separator].intercalate (front ++ [last]) = front.flatMap (· ++ [separator]) ++ last := by
  induction front with
  | nil => simp [List.intercalate]
  | cons first rest inductionHypothesis =>
      obtain ⟨second, others, split⟩ := List.exists_cons_of_ne_nil (List.concat_ne_nil last rest)
      rw [split] at inductionHypothesis
      rw [List.cons_append, split, List.intercalate_cons_cons, inductionHypothesis,
        List.flatMap_cons]
      simp only [List.append_assoc]

/-- The readings of a source: those of each line, and a line end between the lines. -/
def sourceReadings (source : List Char) : List Reading :=
  [Reading.endOfLine].intercalate ((sourceLines source).map readings)

/-- The reports on the lines of a source, which count from one. -/
def sourceReports (source : List Char) : List Diagnostic :=
  ((sourceLines source).zipIdx 1).flatMap fun (line, number) => lineReports number line

/-- What the lexer does with a source that it gets through. -/
theorem lex_lines (interner : Interner) {source : List Char}
    (clean : (Scanned.ofText source).unexpected = none)
    (readable : ∀ line ∈ sourceLines source, LineReadable line) :
    lex interner source =
      let (tokens, names) := Token.ofReadings interner (sourceReadings source)
      ⟨sourceReports source ++ [.lexedSource (tokens.length + 1) (sourceLines source).length],
        .ok (tokens ++ [.endOfFile], names)⟩ := by
  rw [← Scanned.lines_ofText clean] at readable
  obtain ⟨earlier, line, split, _⟩ := Lexeme.lines_split (Scanned.ofText source).lexemes
  obtain ⟨lexer, stepped, tokens, log, number, onLine⟩ :=
    Lexer.steps_readable interner readable split
  rw [Scanned.lines_ofText clean] at split
  have read : sourceReadings source =
      earlier.flatMap (fun line => readings line ++ [.endOfLine]) ++ readings line := by
    rw [sourceReadings, split, List.map_append, List.map_singleton, intercalate_concat,
      List.flatMap_map]
  have reported : sourceReports source = lexer.log.toList := by
    rw [log, sourceReports, split, List.zipIdx_append, List.flatMap_append, List.zipIdx_singleton,
      List.flatMap_singleton, Nat.add_comm 1]
  rw [read, ← tokens, reported, split, List.length_append, List.length_singleton, ← number]
  unfold lex
  dsimp only
  rw [stepped, clean]
  simp only [Array.toList_push, Array.size_push, Array.length_toList]

/-- A source that has tokens is scanned to its end, and what the lexer reads of it stands for
something. -/
theorem lex_ok {interner : Interner} {source : List Char} {done : List Token × Interner}
    (lexed : (lex interner source).value = .ok done) :
    (Scanned.ofText source).unexpected = none ∧ ∀ line ∈ sourceLines source, LineReadable line := by
  obtain ⟨rest, tiles, ends⟩ := Scanned.ofText_tiles source
  have faultless (error : LexError) : ¬Faults source error := by
    intro faults
    cases (faults.reported interner).symm.trans lexed
  have readable : Readable (Scanned.ofText source).lexemes := by
    by_contra unreadable
    obtain ⟨before, lexeme, others, whole, front, fails⟩ := Lexeme.exists_unreadable unreadable
    rw [whole, List.append_cons] at tiles
    obtain ⟨middle, first, _⟩ := tiles.split
    exact faultless _ (.malformed first front fails)
  rcases ends with ⟨clean, _⟩ | ⟨unclosed, _⟩
  · rw [← Scanned.lines_ofText clean]
    exact ⟨clean, readable⟩
  · exact absurd (.unexpected tiles readable unclosed) (faultless _)

theorem Lexeme.reports_truncations (number : Nat) (lexeme : Lexeme) :
    (reports number lexeme).filter Diagnostic.isTruncation = [] := by
  unfold reports
  cases lexeme.reading? with
  | none => rfl
  | some reading =>
      cases reading with
      | integer value excess => rcases excess with _ | _ | _ <;> rfl
      | comma | endOfLine | register | directive | char | string | identifier => rfl

/-- A line is reported as too long once, if it is. -/
theorem Lexeme.lineReports_truncations (number : Nat) (line : List Lexeme) :
    (lineReports number line).filter Diagnostic.isTruncation =
      if lexemesPerLine < (significant line).length then [.lineTruncated number] else [] := by
  have none : ((admitted line).flatMap (reports number)).filter Diagnostic.isTruncation = [] := by
    rw [List.filter_flatMap, List.flatMap_eq_nil_iff]
    exact fun lexeme _ => reports_truncations number lexeme
  rw [lineReports, List.filter_append, none, List.nil_append]
  split_ifs <;> rfl

/-- What the tokens of a source and the reports on it are, line by line. -/
structure LexedByLine (interner : Interner) (source : List Char) (log : List Diagnostic)
    (tokens : List Token) (names : Interner) : Prop where
  clean : ∀ line ∈ source.splitOn '\n', (Scanned.ofText line).unexpected = none
  /-- The first lexemes of each line, up to the limit, stand for something. -/
  readable : ∀ line ∈ sourceLines source, ∀ lexeme ∈ (significant line).take lexemesPerLine,
    lexeme.reading?.isSome
  /-- They are turned into tokens and interned in order, and nothing else is. -/
  kept : ∃ read, (read, names) = Token.ofReadings interner (sourceReadings source) ∧
    tokens = read ++ [.endOfFile]
  reports : log = sourceReports source ++
    [.lexedSource tokens.length (source.splitOn '\n').length]
  truncations : log.filter Diagnostic.isTruncation =
    ((sourceLines source).zipIdx 1).flatMap fun (line, number) =>
      if lexemesPerLine < (significant line).length then [.lineTruncated number] else []

/-- The lexer gets through a source if what it keeps of each line can be read. What it leaves out is
only reported, once for each line that has more than it keeps. -/
theorem lex_truncates_iff (interner : Interner) (source : List Char) (log : List Diagnostic)
    (tokens : List Token) (names : Interner) :
    lex interner source = ⟨log, .ok (tokens, names)⟩ ↔
      LexedByLine interner source log tokens names := by
  have rows : (sourceLines source).length = (source.splitOn '\n').length := List.length_map _
  constructor
  · intro lexed
    obtain ⟨clean, readable⟩ := lex_ok (congrArg Logged.value lexed)
    have done := lex_lines interner clean readable
    rw [lexed, Logged.mk.injEq, Except.ok.injEq, Prod.mk.injEq] at done
    obtain ⟨reported, whole, interned⟩ := done
    have counted : log = sourceReports source ++
        [.lexedSource tokens.length (source.splitOn '\n').length] := by
      rw [reported, whole, ← rows, List.length_append, List.length_singleton]
    constructor
    · exact (Scanned.clean_iff source).mp clean
    · exact readable
    · exact ⟨_, Prod.ext rfl interned, whole⟩
    · exact counted
    · rw [counted, List.filter_append, sourceReports, List.filter_flatMap]
      simp only [Lexeme.lineReports_truncations]
      exact List.append_nil _
  · rintro ⟨clean, readable, ⟨read, result, rfl⟩, rfl, _⟩
    rw [← Scanned.clean_iff] at clean
    rw [lex_lines interner clean readable, ← result, rows, List.length_append]
    rfl

end Source

end RegisterMachine
