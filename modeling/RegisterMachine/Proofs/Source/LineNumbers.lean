/-
This file proves that line numbers are those of the source text. The tokens of a line come from its
lexemes, the phrases of a program never go past a line, and an error names the line on which the
lexeme or the item stands that it is about.
-/

import RegisterMachine.Proofs.Source.Refusals
import RegisterMachine.Proofs.Source.Truncation
import RegisterMachine.Proofs.Source.Wording

namespace RegisterMachine.Source

open Interner (Extends Sound)
open Lexeme (lines admitted readings LineReadable)

/-- The phrases on some lines that become lines of the program, with the numbers of their lines. -/
def numberedRows (line : Nat) (rows : List (List (Phrase × List Token))) : List (Nat × Phrase) :=
  (rows.zipIdx line).flatMap fun (row, number) =>
    (row.filter (·.1.isLine)).map fun item => (number, item.1)

theorem numberedRows_lineEnd (line : Nat) (rows : List (List (Phrase × List Token))) :
    numberedRows line ([] :: rows) = numberedRows (line + 1) rows :=
  rfl

theorem numberedRows_item (line : Nat) (phrase : Phrase) (taken : List Token)
    (row : List (Phrase × List Token)) (rows : List (List (Phrase × List Token))) :
    numberedRows line (((phrase, taken) :: row) :: rows) =
      (if phrase.isLine then [(line, phrase)] else []) ++ numberedRows line (row :: rows) := by
  simp only [numberedRows, List.zipIdx_cons, List.flatMap_cons, List.filter_cons]
  split_ifs <;> rfl

/-- Phrases that are read line by line: those of whole lines, and those at the front of a last one
up to the rest of the tokens. -/
inductive ReadsLines (interner : Interner) :
    List (List (Phrase × List Token)) → (rows : List (List Token)) → (rest : List Token) → Prop
  | last {items : List (Phrase × List Token)} {row back : List Token} {later : List (List Token)}
      (begins : Begins interner items row back) :
      ReadsLines interner [items] (row :: later) (back ++ later.flatMap (.endOfLine :: ·))
  | further {items : List (Phrase × List Token)} {row rest : List Token}
      {others : List (List (Phrase × List Token))} {rows : List (List Token)}
      (split : Split interner items row) (reads : ReadsLines interner others rows rest) :
      ReadsLines interner (items :: others) (row :: rows) rest

section Rows

variable {interner : Interner} {items : List (Phrase × List Token)}
  {itemRows : List (List (Phrase × List Token))} {row tokens rest : List Token}
  {rows : List (List Token)}

/-- A phrase in front of the first line. -/
theorem ReadsLines.more {phrase : Phrase} {taken : List Token}
    (reads : phrase.Reads interner taken row)
    (others : ReadsLines interner (items :: itemRows) (row :: rows) rest) :
    ReadsLines interner (((phrase, taken) :: items) :: itemRows) ((taken ++ row) :: rows) rest := by
  cases others with
  | last begins => exact .last (.more reads begins)
  | further split others => exact .further (.more reads split) others

/-- A phrase that stays inside of a line takes its tokens from the first line. -/
theorem inside_row {taken following : List Token}
    (inside : ∀ token ∈ taken, token.Inside)
    (whole : taken ++ following = row ++ rows.flatMap (.endOfLine :: ·)) :
    ∃ left, row = taken ++ left ∧ following = left ++ rows.flatMap (.endOfLine :: ·) := by
  rcases List.append_eq_append_iff.mp whole with ⟨left, rfl, rfl⟩ | ⟨beyond, rfl, ends⟩
  · exact ⟨left, rfl, rfl⟩
  · cases beyond with
    | nil => exact ⟨[], by simp only [List.append_nil], ends.symm⟩
    | cons first others =>
        cases rows with
        | nil => cases ends
        | cons next later =>
            obtain rfl := (List.cons.inj ends).1
            exact absurd rfl (inside _ (List.mem_append_right _ List.mem_cons_self)).notLineEnd

/-- Phrases that are read one after the other are read line by line. -/
theorem Begins.readsLines (begins : Begins interner items tokens rest)
    (inLine : ∀ others ∈ row :: rows, .endOfLine ∉ others)
    (whole : tokens = row ++ rows.flatMap (.endOfLine :: ·)) (line : Nat) :
    ∃ first others, ReadsLines interner (first :: others) (row :: rows) rest ∧
      numbered line items = numberedRows line (first :: others) ∧
      lineAfter line items = line + others.length := by
  induction begins generalizing row rows line with
  | done =>
      subst whole
      exact ⟨[], [], .last (.done row), rfl, rfl⟩
  | @more phrase taken following rest items reads _ inductionHypothesis =>
      rcases reads.inside with ⟨rfl, rfl⟩ | ⟨other, inside⟩
      · cases row with
        | cons token others =>
            obtain rfl := (List.cons.inj whole).1
            exact absurd List.mem_cons_self (inLine _ List.mem_cons_self)
        | nil =>
            cases rows with
            | nil => cases whole
            | cons next later =>
                rw [List.forall_mem_cons] at inLine
                obtain ⟨first, others, readsLater, numbers, after⟩ :=
                  inductionHypothesis inLine.2 (List.cons.inj whole).2 (line + 1)
                refine ⟨[], first :: others, .further .done readsLater, ?_, ?_⟩
                · exact numbers.trans (numberedRows_lineEnd line _).symm
                · rw [List.length_cons, ← Nat.add_assoc, Nat.add_right_comm]
                  exact after
      · obtain ⟨left, rfl, rfl⟩ := inside_row inside whole
        rw [List.forall_mem_cons, List.mem_append, not_or] at inLine
        have inLineLeft : ∀ others ∈ left :: rows, .endOfLine ∉ others :=
          List.forall_mem_cons.mpr ⟨inLine.1.2, inLine.2⟩
        obtain ⟨first, others, readsLater, numbers, after⟩ :=
          inductionHypothesis inLineLeft rfl line
        refine ⟨(phrase, taken) :: first, others, readsLater.more reads.restrict, ?_, ?_⟩
        · rw [numbered, Phrase.lineAfter_inside other, numbers, numberedRows_item]
        · rw [lineAfter, List.foldl_cons, Phrase.lineAfter_inside other]
          exact after

/-- The place where the phrases end: some lines are read as a whole, and one up to the rest. -/
theorem ReadsLines.ends (reads : ReadsLines interner itemRows rows rest) :
    ∃ complete front earlier line later back,
      itemRows = complete ++ [front] ∧ rows = earlier ++ line :: later ∧
      List.Forall₂ (Split interner) complete earlier ∧ Begins interner front line back ∧
      rest = back ++ later.flatMap (.endOfLine :: ·) := by
  induction reads with
  | last begins => exact ⟨[], _, [], _, _, _, rfl, rfl, .nil, begins, rfl⟩
  | further split _ inductionHypothesis =>
      obtain ⟨complete, front, earlier, line, later, back, rfl, rfl, splits, begins, ends⟩ :=
        inductionHypothesis
      exact ⟨_ :: complete, front, _ :: earlier, line, later, back, rfl, rfl, .cons split splits,
        begins, ends⟩

/-- If nothing is left all lines are read as a whole. -/
theorem ReadsLines.whole (reads : ReadsLines interner itemRows rows []) :
    List.Forall₂ (Split interner) itemRows rows := by
  obtain ⟨complete, front, earlier, line, later, back, rfl, rfl, splits, begins, ends⟩ := reads.ends
  obtain ⟨rfl, none⟩ := List.append_eq_nil_iff.mp ends.symm
  cases later with
  | nil => exact List.rel_append splits (.cons begins.split .nil)
  | cons next others => cases none

end Rows

/-- The tokens of a line stand for the lexemes that the lexer reads of it, in order. -/
def LineTokens (names : Interner) (line : List Lexeme) (tokens : List Token) : Prop :=
  List.Forall₂ (fun lexeme token => ∃ reading, lexeme.reading? = some reading ∧
    token.Represents names reading) (admitted line) tokens

section Tokens

variable {interner names : Interner} {source : List Char}

theorem Token.ofReadings_represents (sound : interner.Sound) (readings : List Reading) :
    (ofReadings interner readings).2.Sound ∧ Extends interner (ofReadings interner readings).2 ∧
      List.Forall₂ (Represents (ofReadings interner readings).2)
        (ofReadings interner readings).1 readings := by
  induction readings generalizing interner with
  | nil => exact ⟨sound, .refl interner, .nil⟩
  | cons reading rest inductionHypothesis =>
      obtain ⟨soundNext, grown⟩ := ofReading_grown sound reading
      obtain ⟨soundLast, grownLast, others⟩ := inductionHypothesis soundNext
      refine ⟨soundLast, grown.trans grownLast, .cons ?_ others⟩
      exact (ofReading_represents sound reading).mono grownLast

/-- What is related to two parts of a list and an item between them has two such parts too. -/
theorem forall₂_split {α β : Type} {related : α → β → Prop} {left : List α} {front back : List β}
    {item : β} (alike : List.Forall₂ related left (front ++ item :: back)) :
    ∃ first middle last, left = first ++ middle :: last ∧ List.Forall₂ related first front ∧
      related middle item ∧ List.Forall₂ related last back := by
  have before := List.forall₂_take_append _ _ _ alike
  have after := List.forall₂_drop_append _ _ _ alike
  obtain ⟨middle, last, here, others, split⟩ := List.forall₂_cons_right_iff.mp after
  refine ⟨left.take front.length, middle, last, ?_, before, here, others⟩
  rw [← split, List.take_append_drop]

/-- Tokens that stand for the readings of some lines are cut at the line ends. -/
theorem represents_rows {tokens : List Token} {row : List Reading} {rows : List (List Reading)}
    (represented : List.Forall₂ (Token.Represents names) tokens
      (row ++ rows.flatMap (.endOfLine :: ·))) :
    ∃ first others, tokens = first ++ others.flatMap (.endOfLine :: ·) ∧
      List.Forall₂ (List.Forall₂ (Token.Represents names)) (first :: others) (row :: rows) := by
  induction rows generalizing tokens row with
  | nil =>
      rw [List.flatMap_nil, List.append_nil] at represented
      exact ⟨tokens, [], (List.append_nil _).symm, .cons represented .nil⟩
  | cons next later inductionHypothesis =>
      obtain ⟨front, token, back, rfl, alike, ends, represents⟩ := forall₂_split represented
      cases ends
      obtain ⟨first, rest, rfl, others⟩ := inductionHypothesis represents
      exact ⟨front, first :: rest, rfl, .cons alike others⟩

/-- The readings of a line are those of the lexemes that the lexer reads. -/
theorem lineTokens_of_readings {line : List Lexeme} {tokens : List Token}
    (readable : LineReadable line)
    (represented : List.Forall₂ (Token.Represents names) tokens (readings line)) :
    LineTokens names line tokens := by
  unfold LineReadable at readable
  unfold readings at represented
  unfold LineTokens
  generalize admitted line = kept at readable represented ⊢
  induction kept generalizing tokens with
  | nil =>
      cases represented
      exact .nil
  | cons lexeme others inductionHypothesis =>
      rw [List.forall_mem_cons] at readable
      obtain ⟨reading, read⟩ := Option.isSome_iff_exists.mp readable.1
      rw [List.filterMap_cons_some read] at represented
      cases represented with
      | cons represents rest =>
          exact .cons ⟨reading, read, represents⟩ (inductionHypothesis readable.2 rest)

/-- No newline is among the lexemes of a line. -/
theorem Lexeme.lines_inside (lexemes : List Lexeme) :
    ∀ line ∈ lines lexemes, ∀ lexeme ∈ line, lexeme.kind ≠ .newline := by
  induction lexemes using List.reverseRecOn with
  | nil => simp [lines]
  | append_singleton before last inductionHypothesis =>
      obtain ⟨earlier, line, split, further⟩ := lines_split before
      by_cases ends : last.kind = .newline
      · rw [lines_newline ends, List.forall_mem_append, List.forall_mem_singleton]
        exact ⟨inductionHypothesis, List.forall_mem_nil _⟩
      · rw [split, List.forall_mem_append, List.forall_mem_singleton] at inductionHypothesis
        rw [further last ends, List.forall_mem_append, List.forall_mem_singleton,
          List.forall_mem_append, List.forall_mem_singleton]
        exact ⟨inductionHypothesis.1, inductionHypothesis.2, ends⟩

theorem sourceLines_inside (clean : (Scanned.ofText source).unexpected = none) :
    ∀ line ∈ sourceLines source, ∀ lexeme ∈ line, '\n' ∉ lexeme.text := by
  intro line member lexeme inside
  have kinds := Lexeme.lines_inside (Scanned.ofText source).lexemes
  rw [Scanned.lines_ofText clean] at kinds
  obtain ⟨text, _, rfl⟩ := List.mem_map.mp member
  rcases Scanned.ofText_onOneLine text lexeme inside with ⟨kind, _⟩ | ⟨_, inLine⟩
  · exact absurd kind (kinds _ member lexeme inside)
  · exact inLine

theorem forall_right {α β : Type} {related : α → β → Prop} {holds : β → Prop} {left : List α}
    {right : List β} (alike : List.Forall₂ related left right)
    (each : ∀ first ∈ left, ∀ second, related first second → holds second) :
    ∀ second ∈ right, holds second := by
  induction alike with
  | nil => nofun
  | cons here _ inductionHypothesis =>
      rw [List.forall_mem_cons] at each ⊢
      exact ⟨each.1 _ here, inductionHypothesis each.2⟩

theorem Token.Represents.known {token : Token} {reading : Reading}
    (represents : token.Represents names reading) : Known names token.names := by
  cases represents with
  | comma | endOfLine | register | directive | integer | char => exact .nil
  | string spelled | identifier spelled => exact .singleton spelled.knows

theorem LineTokens.inside {line : List Lexeme} {tokens : List Token}
    (read : LineTokens names line tokens) (inLine : ∀ lexeme ∈ line, '\n' ∉ lexeme.text) :
    ∀ token ∈ tokens, token.Inside := by
  refine forall_right read ?_
  rintro lexeme member token ⟨reading, found, represents⟩
  constructor
  · rintro rfl
    cases represents
  · rintro rfl
    cases represents
    have newline := Reading.of?_endOfLine found
    apply inLine lexeme (List.mem_filter.mp (List.mem_of_mem_take member)).1
    rw [newline]
    exact List.mem_cons_self

theorem LineTokens.known {line : List Lexeme} {tokens : List Token}
    (read : LineTokens names line tokens) : ∀ token ∈ tokens, Known names token.names :=
  forall_right read fun _ _ _ ⟨_, _, represents⟩ => represents.known

/-- The tokens of a source: those of each line, a line end between the lines, and the end. -/
structure LexedRows (names : Interner) (source : List Char) (tokens row : List Token)
    (rows : List (List Token)) : Prop where
  sound : names.Sound
  tokens : tokens = row ++ rows.flatMap (.endOfLine :: ·) ++ [.endOfFile]
  lines : List.Forall₂ (LineTokens names) (sourceLines source) (row :: rows)
  inside : ∀ others ∈ row :: rows, ∀ token ∈ others, token.Inside

theorem lex_rows (sound : interner.Sound) {tokens : List Token}
    (lexed : (lex interner source).value = .ok (tokens, names)) :
    ∃ row rows, LexedRows names source tokens row rows := by
  obtain ⟨clean, readable⟩ := lex_ok lexed
  rw [lex_lines interner clean readable] at lexed
  obtain ⟨rfl, rfl⟩ := Prod.mk.inj (Except.ok.inj lexed)
  obtain ⟨soundNames, _, represented⟩ := Token.ofReadings_represents sound (sourceReadings source)
  have nonempty : sourceLines source ≠ [] := by
    rw [← Scanned.lines_ofText clean]
    exact List.splitOnP_ne_nil _ _
  obtain ⟨first, others, split⟩ := List.exists_cons_of_ne_nil nonempty
  have read : sourceReadings source =
      readings first ++ (others.map readings).flatMap (.endOfLine :: ·) := by
    rw [sourceReadings, split, List.map_cons, intercalate_cons]
  rw [read] at soundNames represented ⊢
  obtain ⟨row, rows, whole, alike⟩ := represents_rows represented
  rw [← List.map_cons, List.forall₂_map_right_iff, ← split] at alike
  have both := (List.forall₂_and_left _ _).mpr ⟨readable, alike.flip⟩
  have lines := both.imp fun line tokens read => lineTokens_of_readings read.1 read.2
  refine ⟨row, rows, soundNames, by rw [whole], lines, ?_⟩
  exact forall_right lines fun line member _ read =>
    read.inside (sourceLines_inside clean line member)

namespace LexedRows

variable {tokens row : List Token} {rows : List (List Token)}

theorem notEnd (lexed : LexedRows names source tokens row rows) :
    ∀ token ∈ row ++ rows.flatMap (.endOfLine :: ·), token ≠ .endOfFile := by
  have inside := lexed.inside
  rw [List.forall_mem_cons] at inside
  rw [List.forall_mem_append]
  refine ⟨fun token member => (inside.1 token member).notEnd, fun token member => ?_⟩
  obtain ⟨others, later, among⟩ := List.mem_flatMap.mp member
  rcases List.mem_cons.mp among with rfl | among
  · nofun
  · exact (inside.2 others later token among).notEnd

theorem before (lexed : LexedRows names source tokens row rows) :
    beforeEnd tokens = row ++ rows.flatMap (.endOfLine :: ·) := by
  rw [lexed.tokens]
  exact beforeEnd_concat lexed.notEnd

theorem known (lexed : LexedRows names source tokens row rows) :
    ∀ token ∈ tokens, Known names token.names := by
  have each := forall_right lexed.lines fun _ _ _ read => read.known
  rw [List.forall_mem_cons] at each
  rw [lexed.tokens, List.forall_mem_append, List.forall_mem_append, List.forall_mem_singleton]
  refine ⟨⟨each.1, fun token member => ?_⟩, .nil⟩
  obtain ⟨others, later, among⟩ := List.mem_flatMap.mp member
  rcases List.mem_cons.mp among with rfl | among
  · exact .nil
  · exact each.2 others later token among

theorem notLineEnd (lexed : LexedRows names source tokens row rows) :
    ∀ others ∈ row :: rows, .endOfLine ∉ others :=
  fun others member among => (lexed.inside others member _ among).notLineEnd rfl

end LexedRows

theorem count_lineEnds {row : List Token} {rows : List (List Token)}
    (inLine : ∀ others ∈ row :: rows, .endOfLine ∉ others) :
    (row ++ rows.flatMap (.endOfLine :: ·)).count .endOfLine = rows.length := by
  rw [List.forall_mem_cons] at inLine
  rw [List.count_append, List.count_eq_zero_of_not_mem inLine.1, Nat.zero_add]
  have inLater := inLine.2
  clear inLine
  induction rows with
  | nil => rfl
  | cons next later inductionHypothesis =>
      rw [List.forall_mem_cons] at inLater
      rw [List.flatMap_cons, List.cons_append, List.count_cons_self, List.count_append,
        List.count_eq_zero_of_not_mem inLater.1, Nat.zero_add, inductionHypothesis inLater.2]
      rfl

theorem sourceLines_length (source : List Char) :
    (sourceLines source).length = source.count '\n' + 1 := by
  rw [sourceLines, List.length_map]
  induction source using line_induction with
  | last line inLine =>
      rw [List.splitOn_eq_singleton inLine, List.count_eq_zero_of_not_mem inLine]
      rfl
  | further line rest inLine inductionHypothesis =>
      rw [List.splitOn_append_cons_self_of_not_mem inLine, List.length_cons, inductionHypothesis,
        List.count_append, List.count_eq_zero_of_not_mem inLine, List.count_cons_self, Nat.zero_add]

/-- A line stands behind as many newlines as there are lines before it. -/
theorem newlines_before (source : List Char) (start : Nat) :
    ∀ line number, (line, number) ∈ (source.splitOn '\n').zipIdx start →
      '\n' ∉ line ∧
        ∃ before after, source = before ++ line ++ after ∧ number = before.count '\n' + start := by
  induction source using line_induction generalizing start with
  | last line inLine =>
      intro other number member
      rw [List.splitOn_eq_singleton inLine, List.zipIdx_singleton, List.mem_singleton] at member
      cases member
      exact ⟨inLine, [], [], (List.append_nil _).symm, (Nat.zero_add _).symm⟩
  | further line rest inLine inductionHypothesis =>
      intro other number member
      rw [List.splitOn_append_cons_self_of_not_mem inLine, List.zipIdx_cons,
        List.mem_cons] at member
      rcases member with here | later
      · cases here
        exact ⟨inLine, [], '\n' :: rest, rfl, (Nat.zero_add _).symm⟩
      · obtain ⟨inside, before, after, rfl, rfl⟩ := inductionHypothesis (start + 1) _ _ later
        refine ⟨inside, line ++ '\n' :: before, after, by simp, ?_⟩
        rw [List.count_append, List.count_eq_zero_of_not_mem inLine, List.count_cons_self]
        omega

end Tokens

/-- The phrases of a line are read from its tokens alone, one after the other. -/
def LineReads (names : Interner) (line : List Lexeme) (items : List (Phrase × List Token)) :
    Prop :=
  ∃ tokens, LineTokens names line tokens ∧ Split names items tokens

theorem lines_read {names : Interner} {lines : List (List Lexeme)} {rows : List (List Token)}
    {itemRows : List (List (Phrase × List Token))}
    (read : List.Forall₂ (LineTokens names) lines rows)
    (splits : List.Forall₂ (Split names) itemRows rows) :
    List.Forall₂ (LineReads names) lines itemRows := by
  induction read generalizing itemRows with
  | nil =>
      cases splits
      exact .nil
  | cons here _ inductionHypothesis =>
      cases splits with
      | cons split rest => exact .cons ⟨_, here, split⟩ (inductionHypothesis rest)

/-- An error of the parser is about the first item of a source that cannot be read. All lines before
it are read, and so is what stands in front of it on its own line, which the error names. -/
inductive ItemFault (names : Interner) (source : List Char) (error : ParseError) : Prop
  | intro {earlier later : List (List Lexeme)} {line : List Lexeme}
      {rows : List (List (Phrase × List Token))} {front : List (Phrase × List Token)}
      {tokens rest : List Token} {token : Token}
      (split : sourceLines source = earlier ++ line :: later)
      (number : error.line = earlier.length + 1)
      (complete : List.Forall₂ (LineReads names) earlier rows)
      (read : LineTokens names line tokens)
      (begins : Begins names front tokens (token :: rest))
      (noPhrase : ∀ (phrase : Phrase) taken following, phrase.Reads names taken following →
        taken ++ following ≠ token :: rest)
      (concerns : error.Concerns names (earlier.length + 1) token)

/-- Line numbers are those of the source text. -/
structure LinesArePhysical (interner : Interner) (source : List Char) : Prop where
  numbers : ∀ line number, (line, number) ∈ (source.splitOn '\n').zipIdx 1 →
    '\n' ∉ line ∧
      ∃ before after, source = before ++ line ++ after ∧ number = before.count '\n' + 1
  lineEnds : ∀ tokens names, (lex interner source).value = .ok (tokens, names) →
    tokens.count .endOfLine = source.count '\n' ∧
      ∃ before, tokens = before ++ [.endOfFile] ∧ .endOfFile ∉ before
  /-- Each line of a program is a phrase on the line of the source that it is numbered with. -/
  program : ∀ capacity tokens names program after,
    (lex interner source).value = .ok (tokens, names) →
    (parse names capacity tokens).value = .ok (program, after) →
    ∃ rows, List.Forall₂ (LineReads names) (sourceLines source) rows ∧
      List.Forall₂ (Phrase.StandsAt after) (numberedRows 1 rows) program.toList
  lexErrors : ∀ error, (lex interner source).value = .error error → Faults source error
  parseErrors : ∀ capacity tokens names error,
    (lex interner source).value = .ok (tokens, names) →
    (parse names capacity tokens).value = .error (.raised error) → ItemFault names source error

section Physical

variable {interner names : Interner} {source : List Char} {tokens row : List Token}
  {rows : List (List Token)} {capacity : Nat}

theorem Outline.fill_raised {outline : Outline} {program : Program} {error : ParseError}
    (filled : outline.fill program = .error (.raised error)) :
    outline.stop = some (.raised error) := by
  unfold fill at filled
  split at filled
  · cases filled
  · split at filled
    · rename_i stopped
      rw [stopped]
      exact congrArg some (Except.error.inj filled)
    · cases filled

theorem closes_lines (rows : List (List Token)) : Closes (rows.flatMap (.endOfLine :: ·)) := by
  cases rows with
  | nil => exact ⟨nofun, nofun⟩
  | cons => exact ⟨nofun, nofun⟩

theorem LexedRows.program (lexed : LexedRows names source tokens row rows) {program : Program}
    {after : Interner} (done : (parse names capacity tokens).value = .ok (program, after)) :
    ∃ itemRows, List.Forall₂ (LineReads names) (sourceLines source) itemRows ∧
      List.Forall₂ (Phrase.StandsAt after) (numberedRows 1 itemRows) program.toList := by
  rw [parse, Parser.run_outline] at done
  obtain ⟨reached, rfl, contents, _⟩ := Outline.fill_ok done
  have informed : TokenStream.Informed names (.ofList tokens) := lexed.known
  obtain ⟨items, split⟩ := split_of_outline lexed.sound informed reached
  obtain ⟨_, _, stands⟩ := split.outlined_end lexed.sound 1 0
  change Split names items (beforeEnd tokens) at split
  rw [lexed.before] at split
  obtain ⟨first, others, reads, numbers, _⟩ :=
    (Begins.of_split split).readsLines lexed.notLineEnd rfl 1
  refine ⟨first :: others, ?_, ?_⟩
  · exact lines_read lexed.lines reads.whole
  · rw [← numbers, contents]
    exact stands

/-- A parser that stops with an error stops at an item that cannot be read, and its error names the
line of this item. -/
theorem LexedRows.fault (lexed : LexedRows names source tokens row rows) {error : ParseError}
    (failed : (parse names capacity tokens).value = .error (.raised error)) :
    ItemFault names source error := by
  rw [parse, Parser.run_outline] at failed
  have informed : TokenStream.Informed names (.ofList tokens) := lexed.known
  obtain ⟨items, token, more, stops⟩ :=
    outline_stops lexed.sound informed (Outline.fill_raised failed)
  have begins : Begins names items (beforeEnd tokens) (token :: more) := by
    cases stops with
    | intro begins => exact begins
  rw [lexed.before] at begins
  obtain ⟨first, others, reads, _, number⟩ := begins.readsLines lexed.notLineEnd rfl 1
  obtain ⟨complete, front, earlier, line, later, back, itemRows, split, splits, here, ends⟩ :=
    reads.ends
  have lines := lexed.lines
  rw [split] at lines
  obtain ⟨lexemes, lexemesHere, lexemesLater, whole, read, readHere, _⟩ := forall₂_split lines
  have complete_length : others.length = lexemes.length := by
    have count := congrArg List.length itemRows
    rw [List.length_cons, List.length_append, List.length_singleton] at count
    rw [read.length_eq, ← splits.length_eq]
    omega
  cases back with
  | nil =>
      -- a line end can always be read
      cases later with
      | nil => cases ends
      | cons next others =>
          obtain ⟨rfl, _⟩ := List.cons.inj ends
          exact absurd rfl (stops.noPhrase (.lineEnd more))
  | cons first rest =>
      obtain ⟨rfl, rfl⟩ := List.cons.inj ends
      have member : token ∈ line := by
        rw [here.whole]
        exact List.mem_append_right _ List.mem_cons_self
      have concerns := stops.concerns (readHere.known token member)
      rw [number, complete_length, Nat.add_comm] at concerns
      refine .intro whole concerns.line_eq (lines_read read splits) readHere here ?_ concerns
      intro phrase taken following reads same
      have extended := reads.extend (closes_lines later)
      apply stops.noPhrase extended
      rw [← List.append_assoc, same]
      rfl

theorem LexedRows.lineEnds (lexed : LexedRows names source tokens row rows) :
    tokens.count .endOfLine = source.count '\n' ∧
      ∃ before, tokens = before ++ [.endOfFile] ∧ .endOfFile ∉ before := by
  refine ⟨?_, _, lexed.tokens, fun member => lexed.notEnd _ member rfl⟩
  have count := lexed.lines.length_eq
  rw [sourceLines_length, List.length_cons, Nat.add_right_cancel_iff] at count
  rw [lexed.tokens, List.count_append, count_lineEnds lexed.notLineEnd, count]
  rfl

/-- The lexer and the parser count the newlines of a source alike: its line ends, the lines of its
program and the errors about it have the numbers of the lines on which they stand. -/
theorem lines_physical (sound : interner.Sound) (source : List Char) :
    LinesArePhysical interner source where
  numbers := newlines_before source 1
  lineEnds tokens names lexed := by
    obtain ⟨row, rows, lexedRows⟩ := lex_rows sound lexed
    exact lexedRows.lineEnds
  program capacity tokens names program after lexed parsed := by
    obtain ⟨row, rows, lexedRows⟩ := lex_rows sound lexed
    exact lexedRows.program parsed
  lexErrors error failed := Faults.of_error failed
  parseErrors capacity tokens names error lexed failed := by
    obtain ⟨row, rows, lexedRows⟩ := lex_rows sound lexed
    exact lexedRows.fault failed

/-- A label, a halt and a jump to the label have the numbers of the lines on which they stand. -/
theorem lines_physical_jump :
    let source := "again:\n  halt\nJMP again".toList
    Interner.empty.Sound ∧ LinesArePhysical .empty source ∧
      ∃ tokens names program after label,
        (lex .empty source).value = .ok (tokens, names) ∧
        (parse names 10 tokens).value = .ok (program, after) ∧
        after.resolve label = .ok "again" ∧
        program.toList = [⟨1, .label label⟩, ⟨2, .instruction ⟨.halt, .none⟩⟩,
          ⟨3, .instruction ⟨.jmp, .symbol label, .absent⟩⟩] := by
  intro source
  have accepted : (lex .empty source).value.toOption.any fun lexed =>
      (parse lexed.2 10 lexed.1).value.toOption.any fun parsed =>
        parsed.2.resolve ⟨3⟩ = .ok "again" ∧
          parsed.1.toList = [⟨1, .label ⟨3⟩⟩, ⟨2, .instruction ⟨.halt, .none⟩⟩,
            ⟨3, .instruction ⟨.jmp, .symbol ⟨3⟩, .absent⟩⟩] := by
    decide +kernel
  obtain ⟨⟨tokens, names⟩, lexed, accepted⟩ := exists_ok accepted
  obtain ⟨⟨program, after⟩, parsed, numbered⟩ := exists_ok accepted
  obtain ⟨resolved, lines⟩ := of_decide_eq_true numbered
  exact ⟨.empty, lines_physical .empty source, tokens, names, program, after, ⟨3⟩, lexed, parsed,
    resolved, lines⟩

end Physical

end RegisterMachine.Source
