/-
This file says what the lexer makes of some lexemes, line by line. The first lexemes of each line
are read in order, the other ones leave no trace, and a line that has other ones is reported.
-/

import Mathlib.Data.List.Induction
import RegisterMachine.Proofs.Source.Patterns

namespace RegisterMachine.Source

/-- The tokens of some readings in order; the texts of names and strings are interned. -/
def Token.ofReadings (interner : Interner) : List Reading → List Token × Interner
  | [] => ([], interner)
  | reading :: rest =>
      let (token, extended) := ofReading interner reading
      let (tokens, last) := ofReadings extended rest
      (token :: tokens, last)

theorem Token.ofReadings_append (interner : Interner) (front back : List Reading) :
    ofReadings interner (front ++ back) =
      ((ofReadings interner front).1 ++ (ofReadings (ofReadings interner front).2 back).1,
        (ofReadings (ofReadings interner front).2 back).2) := by
  induction front generalizing interner with
  | nil => rfl
  | cons reading rest inductionHypothesis =>
      simp only [List.cons_append, ofReadings, inductionHypothesis]

namespace Lexeme

/-- The lexemes of each line, without the newlines between the lines. -/
def lines (lexemes : List Lexeme) : List (List Lexeme) :=
  lexemes.splitOnP fun lexeme => lexeme.kind = .newline

/-- The lexemes of a line that the lexer reads. -/
def admitted (line : List Lexeme) : List Lexeme :=
  (significant line).take lexemesPerLine

/-- What a lexeme stands for. -/
def reading? (lexeme : Lexeme) : Option Reading :=
  Reading.of? lexeme.text

/-- All lexemes of a line that the lexer reads stand for something. -/
def LineReadable (line : List Lexeme) : Prop :=
  ∀ lexeme ∈ admitted line, lexeme.reading?.isSome

/-- All lines of some lexemes can be read. -/
def Readable (lexemes : List Lexeme) : Prop :=
  ∀ line ∈ lines lexemes, LineReadable line

/-- What the lexemes of a line stand for. -/
def readings (line : List Lexeme) : List Reading :=
  (admitted line).filterMap reading?

/-- The report on a lexeme that stands for a number out of range. -/
def reports (number : Nat) (lexeme : Lexeme) : List Diagnostic :=
  lexeme.reading?.elim [] (·.reports number lexeme.text)

/-- The reports on a line: those on its lexemes, and one if there are too many of them. -/
def lineReports (number : Nat) (line : List Lexeme) : List Diagnostic :=
  (admitted line).flatMap (reports number) ++
    if lexemesPerLine < (significant line).length then [.lineTruncated number] else []

variable {lexeme : Lexeme} {before line : List Lexeme} {earlier : List (List Lexeme)}

theorem significant_skipped (skipped : lexeme.isSkipped = true) :
    significant (line ++ [lexeme]) = significant line := by
  rw [significant, List.filter_append, List.filter_cons_of_neg (by simp [skipped])]
  exact List.append_nil _

theorem significant_kept (kept : ¬lexeme.isSkipped = true) :
    significant (line ++ [lexeme]) = significant line ++ [lexeme] := by
  rw [significant, List.filter_append, List.filter_cons_of_pos (by simp [kept])]
  rfl

theorem admitted_skipped (skipped : lexeme.isSkipped = true) :
    admitted (line ++ [lexeme]) = admitted line := by
  rw [admitted, significant_skipped skipped, admitted]

theorem admitted_taken (kept : ¬lexeme.isSkipped = true)
    (room : (significant line).length < lexemesPerLine) :
    admitted (line ++ [lexeme]) = admitted line ++ [lexeme] := by
  rw [admitted, significant_kept kept, List.take_append, admitted,
    List.take_of_length_le (l := [lexeme]) (by simp only [List.length_singleton]; omega)]

theorem admitted_dropped (kept : ¬lexeme.isSkipped = true)
    (full : ¬(significant line).length < lexemesPerLine) :
    admitted (line ++ [lexeme]) = admitted line := by
  rw [admitted, significant_kept kept, List.take_append_of_le_length (by omega), admitted]

theorem lines_newline (ends : lexeme.kind = .newline) :
    lines (before ++ [lexeme]) = lines before ++ [[]] :=
  List.splitOnP_append_cons before [] (decide_eq_true ends)

/-- The last line goes on with a lexeme that does not end it. -/
theorem lines_split (before : List Lexeme) :
    ∃ earlier line, lines before = earlier ++ [line] ∧
      ∀ lexeme : Lexeme, lexeme.kind ≠ .newline →
        lines (before ++ [lexeme]) = earlier ++ [line ++ [lexeme]] := by
  unfold lines
  induction before with
  | nil =>
      refine ⟨[], [], rfl, fun lexeme inLine => ?_⟩
      exact List.splitOnP_eq_singleton (by simpa using inLine)
  | cons first rest inductionHypothesis =>
      obtain ⟨earlier, line, split, further⟩ := inductionHypothesis
      simp only [List.cons_append, List.splitOnP_cons_eq_if_modifyHead, split]
      split_ifs with ends
      · refine ⟨[] :: earlier, line, rfl, fun lexeme inLine => ?_⟩
        rw [further lexeme inLine]
        rfl
      · cases earlier with
        | nil =>
            refine ⟨[], first :: line, rfl, fun lexeme inLine => ?_⟩
            rw [further lexeme inLine]
            rfl
        | cons head others =>
            refine ⟨(first :: head) :: others, line, rfl, fun lexeme inLine => ?_⟩
            rw [further lexeme inLine]
            rfl

theorem lines_length (lexemes : List Lexeme) :
    (lines lexemes).length = lexemes.countP (fun lexeme => lexeme.kind = .newline) + 1 := by
  unfold lines
  induction lexemes with
  | nil => rfl
  | cons first rest inductionHypothesis =>
      rw [List.splitOnP_cons_eq_if_modifyHead, List.countP_cons]
      split_ifs
      · rw [List.length_cons, inductionHypothesis]
      · rw [List.length_modifyHead, inductionHypothesis, Nat.add_zero]

theorem readings_taken {reading : Reading} (kept : ¬lexeme.isSkipped = true)
    (room : (significant line).length < lexemesPerLine) (read : lexeme.reading? = some reading) :
    readings (line ++ [lexeme]) = readings line ++ [reading] := by
  rw [readings, admitted_taken kept room, List.filterMap_append, List.filterMap_cons_some read]
  rfl

theorem lineReports_taken (number : Nat) (kept : ¬lexeme.isSkipped = true)
    (room : (significant line).length < lexemesPerLine) :
    lineReports number (line ++ [lexeme]) = lineReports number line ++ reports number lexeme := by
  have fits : ¬lexemesPerLine < (significant line ++ [lexeme]).length := by
    rw [List.length_append, List.length_singleton]
    omega
  rw [lineReports, lineReports, admitted_taken kept room, significant_kept kept, if_neg fits,
    if_neg (by omega), List.flatMap_append, List.flatMap_singleton, List.append_nil,
    List.append_nil]

/-- The first lexeme for which there is no room is reported. -/
theorem lineReports_dropped (number : Nat) (kept : ¬lexeme.isSkipped = true)
    (full : ¬(significant line).length < lexemesPerLine) :
    lineReports number (line ++ [lexeme]) = lineReports number line ++
      if (significant line).length = lexemesPerLine then [.lineTruncated number] else [] := by
  have beyond : lexemesPerLine < (significant line ++ [lexeme]).length := by
    rw [List.length_append, List.length_singleton]
    omega
  rw [lineReports, lineReports, admitted_dropped kept full, significant_kept kept, if_pos beyond]
  split_ifs
  · omega
  · rw [List.append_nil]
  · rw [List.append_nil]
  · omega

end Lexeme

open Lexeme (lines admitted readings lineReports significant LineReadable Readable)

/-- A lexer behind some whole lines and some lexemes of one more. -/
structure Lexer.Covers (interner : Interner) (earlier : List (List Lexeme)) (line : List Lexeme)
    (lexer : Lexer) : Prop where
  tokens : (lexer.tokens.toList, lexer.interner) =
    Token.ofReadings interner
      (earlier.flatMap (fun line => readings line ++ [.endOfLine]) ++ readings line)
  log : lexer.log.toList =
    (earlier.zipIdx 1).flatMap (fun (line, number) => lineReports number line) ++
      lineReports (earlier.length + 1) line
  number : lexer.line = earlier.length + 1
  onLine : lexer.onLine = (significant line).length

namespace Lexer.Covers

variable {interner : Interner} {earlier : List (List Lexeme)} {line : List Lexeme}
  {lexer : Lexer} {lexeme : Lexeme}

theorem start (interner : Interner) : (Lexer.start interner).Covers interner [] [] :=
  ⟨rfl, rfl, rfl, rfl⟩

theorem newline (covers : lexer.Covers interner earlier line) :
    lexer.newline.Covers interner (earlier ++ [line]) [] where
  tokens := by
    rw [List.flatMap_append, List.flatMap_singleton, ← List.append_assoc, List.append_assoc,
      Token.ofReadings_append, ← covers.tokens, Lexer.newline, Array.toList_push]
    rfl
  log := by
    rw [List.zipIdx_append, List.flatMap_append, Nat.add_comm 1]
    exact covers.log.trans (by simp [lineReports, admitted, significant])
  number := by
    rw [List.length_append, Lexer.newline, covers.number]
    rfl
  onLine := rfl

theorem skip (covers : lexer.Covers interner earlier line) (skipped : lexeme.isSkipped = true) :
    lexer.Covers interner earlier (line ++ [lexeme]) := by
  obtain ⟨tokens, log, number, onLine⟩ := covers
  constructor
  · rw [readings, Lexeme.admitted_skipped skipped]
    exact tokens
  · rw [lineReports, Lexeme.admitted_skipped skipped, Lexeme.significant_skipped skipped]
    exact log
  · exact number
  · rw [Lexeme.significant_skipped skipped]
    exact onLine

theorem drop (covers : lexer.Covers interner earlier line) (kept : ¬lexeme.isSkipped = true)
    (full : ¬(significant line).length < lexemesPerLine) :
    lexer.drop.Covers interner earlier (line ++ [lexeme]) := by
  obtain ⟨tokens, log, number, onLine⟩ := covers
  constructor
  · rw [readings, Lexeme.admitted_dropped kept full]
    exact tokens
  · rw [Lexeme.lineReports_dropped _ kept full, ← List.append_assoc, ← log, ← onLine, ← number]
    unfold Lexer.drop
    split_ifs
    · exact Array.toList_push
    · exact (List.append_nil _).symm
  · exact number
  · rw [Lexeme.significant_kept kept, List.length_append, ← onLine]
    rfl

theorem take {reading : Reading} (covers : lexer.Covers interner earlier line)
    (kept : ¬lexeme.isSkipped = true) (room : (significant line).length < lexemesPerLine)
    (read : lexeme.reading? = some reading) :
    ∃ after, lexer.take lexeme.text = .ok after ∧
      after.Covers interner earlier (line ++ [lexeme]) := by
  obtain ⟨tokens, log, number, onLine⟩ := covers
  have classified := read
  rw [Lexeme.reading?] at classified
  unfold Lexer.take classify
  rw [classified]
  refine ⟨_, rfl, ?_, ?_, number, ?_⟩
  · rw [Lexeme.readings_taken kept room read, ← List.append_assoc, Token.ofReadings_append,
      ← tokens, Array.toList_push]
    rfl
  · rw [Lexeme.lineReports_taken _ kept room, ← List.append_assoc, ← log, ← number,
      Array.appendList_eq_append, Array.toList_appendList, Lexeme.reports, read]
    rfl
  · rw [Lexeme.significant_kept kept, List.length_append, ← onLine]
    rfl

theorem step (covers : lexer.Covers interner earlier line) (inLine : lexeme.kind ≠ .newline)
    (readable : LineReadable (line ++ [lexeme])) :
    ∃ after, lexer.step lexeme = .ok after ∧ after.Covers interner earlier (line ++ [lexeme]) := by
  unfold Lexer.step
  split_ifs with skipped room
  · exact ⟨lexer, rfl, covers.skip skipped⟩
  · rw [covers.onLine] at room
    rw [LineReadable, Lexeme.admitted_taken skipped room] at readable
    obtain ⟨reading, read⟩ := Option.isSome_iff_exists.mp
      (readable lexeme (List.mem_append_right _ List.mem_cons_self))
    exact covers.take skipped room read
  · rw [covers.onLine] at room
    exact ⟨lexer.drop, rfl, covers.drop skipped room⟩

/-- The lexer stops at the first lexeme that it reads and that stands for nothing. -/
theorem step_unreadable (covers : lexer.Covers interner earlier line)
    (inLine : lexeme.kind ≠ .newline) (readable : LineReadable line)
    (fails : ¬LineReadable (line ++ [lexeme])) :
    lexer.step lexeme =
      .error (lexer.log, .malformed (earlier.length + 1) (String.ofList lexeme.text)) := by
  unfold Lexer.step
  split_ifs with skipped room
  · rw [LineReadable, Lexeme.admitted_skipped skipped] at fails
    exact absurd readable fails
  · rw [covers.onLine] at room
    rw [LineReadable, Lexeme.admitted_taken skipped room, List.forall_mem_append,
      List.forall_mem_singleton] at fails
    have unread : Reading.of? lexeme.text = none := by
      rw [← Option.not_isSome_iff_eq_none]
      exact fun read => fails ⟨readable, read⟩
    unfold Lexer.take classify
    rw [unread, ← covers.number]
  · rw [covers.onLine] at room
    rw [LineReadable, Lexeme.admitted_dropped skipped room] at fails
    exact absurd readable fails

end Lexer.Covers

section Runs

variable {before lexemes : List Lexeme} {lexeme : Lexeme}

theorem Lexeme.LineReadable.of_concat {line : List Lexeme}
    (readable : LineReadable (line ++ [lexeme])) : LineReadable line := by
  rw [LineReadable, admitted, significant, List.filter_append, List.take_append,
    List.forall_mem_append] at readable
  exact readable.1

theorem Lexeme.readable_newline (ends : lexeme.kind = .newline) :
    Readable (before ++ [lexeme]) ↔ Readable before := by
  rw [Readable, lines_newline ends, List.forall_mem_append, List.forall_mem_singleton]
  exact and_iff_left nofun

theorem Lexeme.Readable.of_concat (readable : Readable (before ++ [lexeme])) : Readable before := by
  by_cases ends : lexeme.kind = .newline
  · exact (readable_newline ends).mp readable
  · obtain ⟨earlier, line, split, further⟩ := lines_split before
    rw [Readable, further lexeme ends, List.forall_mem_append,
      List.forall_mem_singleton] at readable
    rw [Readable, split, List.forall_mem_append, List.forall_mem_singleton]
    exact ⟨readable.1, readable.2.of_concat⟩

/-- Lexemes that cannot all be read have a first one that cannot. -/
theorem Lexeme.exists_unreadable (fails : ¬Readable lexemes) :
    ∃ before lexeme rest, lexemes = before ++ lexeme :: rest ∧ Readable before ∧
      ¬Readable (before ++ [lexeme]) := by
  induction lexemes using List.reverseRecOn with
  | nil => exact absurd (by simp [Readable, lines, LineReadable, admitted, significant]) fails
  | append_singleton others last inductionHypothesis =>
      by_cases readable : Readable others
      · exact ⟨others, last, [], rfl, readable, fails⟩
      · obtain ⟨before, lexeme, rest, whole, front, stops⟩ := inductionHypothesis readable
        refine ⟨before, lexeme, rest ++ [last], ?_, front, stops⟩
        rw [whole, List.append_assoc, List.cons_append]

/-- The lexer gets past lexemes that can all be read. -/
theorem Lexer.steps_readable (interner : Interner) {earlier : List (List Lexeme)}
    {line : List Lexeme} (readable : Readable lexemes) (split : lines lexemes = earlier ++ [line]) :
    ∃ lexer, lexemes.foldlM Lexer.step (start interner) = .ok lexer ∧
      lexer.Covers interner earlier line := by
  induction lexemes using List.reverseRecOn generalizing earlier line with
  | nil =>
      have whole : [] ++ [[]] = earlier ++ [line] := split
      obtain ⟨rfl, same⟩ := List.append_inj' whole rfl
      obtain rfl := List.singleton_inj.mp same
      exact ⟨_, rfl, .start interner⟩
  | append_singleton before lexeme inductionHypothesis =>
      obtain ⟨others, front, splitBefore, further⟩ := Lexeme.lines_split before
      obtain ⟨lexer, stepped, covers⟩ := inductionHypothesis readable.of_concat splitBefore
      rw [List.foldlM_append, stepped, okBind, List.foldlM_cons]
      by_cases ends : lexeme.kind = .newline
      · rw [Lexeme.lines_newline ends, splitBefore] at split
        obtain ⟨rfl, same⟩ := List.append_inj' split rfl
        obtain rfl := List.singleton_inj.mp same
        have skipped : ¬lexeme.isSkipped = true := by simp [Lexeme.isSkipped, ends]
        rw [Lexer.step, if_neg skipped, if_pos ends]
        exact ⟨lexer.newline, rfl, covers.newline⟩
      · rw [Readable, further lexeme ends, List.forall_mem_append,
          List.forall_mem_singleton] at readable
        rw [further lexeme ends] at split
        obtain ⟨rfl, same⟩ := List.append_inj' split rfl
        obtain rfl := List.singleton_inj.mp same
        obtain ⟨after, next, last⟩ := covers.step ends readable.2
        rw [next]
        exact ⟨after, rfl, last⟩

/-- The lexer stops at the first lexeme that cannot be read. -/
theorem Lexer.steps_unreadable (interner : Interner) (readable : Readable before)
    (fails : ¬Readable (before ++ [lexeme])) (rest : List Lexeme) :
    ∃ log, (before ++ lexeme :: rest).foldlM Lexer.step (start interner) =
      .error (log, .malformed (lines before).length (String.ofList lexeme.text)) := by
  obtain ⟨earlier, line, split, further⟩ := Lexeme.lines_split before
  obtain ⟨lexer, stepped, covers⟩ := Lexer.steps_readable interner readable split
  have ends : lexeme.kind ≠ .newline :=
    fun ends => fails ((Lexeme.readable_newline ends).mpr readable)
  rw [Readable, further lexeme ends, List.forall_mem_append, List.forall_mem_singleton] at fails
  rw [Readable, split, List.forall_mem_append, List.forall_mem_singleton] at readable
  have unread : ¬LineReadable (line ++ [lexeme]) := fun read => fails ⟨readable.1, read⟩
  rw [List.foldlM_append, stepped, okBind, List.foldlM_cons,
    covers.step_unreadable ends readable.2 unread, split, List.length_append]
  exact ⟨_, rfl⟩

end Runs

end RegisterMachine.Source
