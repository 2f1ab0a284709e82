/-
This file proves that blanks and comments only separate. The lexemes before a place of a text are
found again whatever is written from there on, as long as it separates them as before, and the
blanks and comments among them mean nothing to the lexer.
-/

import RegisterMachine.Proofs.Source.Lexing

namespace RegisterMachine.Source

namespace Lexeme

/-- The text that some lexemes make up. -/
def write (lexemes : List Lexeme) : List Char :=
  lexemes.flatMap Lexeme.text

theorem write_append (front back : List Lexeme) : write (front ++ back) = write front ++ write back :=
  List.flatMap_append

theorem write_cons (lexeme : Lexeme) (rest : List Lexeme) :
    write (lexeme :: rest) = lexeme.text ++ write rest :=
  List.flatMap_cons

/-- The lexemes that mean something. -/
def significant (lexemes : List Lexeme) : List Lexeme :=
  lexemes.filter (!·.isSkipped)

end Lexeme

/-- The second text can follow a lexeme that the first one follows, and the lexeme still ends before
it, or it ends after some blanks that mean nothing. -/
structure SeparatesAs (rest other : List Char) : Prop where
  word : ∀ next ∈ other.head?, Lexeme.isWordCharacter next →
    ∃ before ∈ rest.head?, Lexeme.isWordCharacter before
  line : (∀ next ∈ rest.head?, next = '\n') →
    ∀ next ∈ (other.dropWhile Lexeme.isBlank).head?, next = '\n'

theorem SeparatesAs.of_head {rest other : List Char} (same : other.head? = rest.head?) :
    SeparatesAs rest other where
  word next begins word := ⟨next, same ▸ begins, word⟩
  line ends := by
    rw [← same] at ends
    cases other with
    | nil => nofun
    | cons first more =>
        rw [ends first rfl, List.dropWhile_cons_of_neg (by decide)]
        exact fun next begins => (Option.some.inj begins).symm

/-- A text that begins with the same character separates in the same way. -/
theorem SeparatesAs.behind {rest other : List Char} (separates : SeparatesAs rest other)
    (front : List Char) : SeparatesAs (front ++ rest) (front ++ other) := by
  cases front with
  | nil => exact separates
  | cons => exact .of_head rfl

namespace Front

variable {first : Char} {others rest other : List Char} {lexeme : Lexeme}

/-- A run that is found ends where it has to. -/
theorem run_found {kind : LexemeKind} {continues : Char → Bool}
    (found : run kind first continues (others ++ rest) = .lexeme lexeme rest)
    (text : lexeme.text = first :: others) :
    lexeme.kind = kind ∧ (∀ character ∈ others, continues character) ∧
      ∀ next ∈ rest.head?, continues next = false := by
  obtain ⟨same, ends⟩ := Front.lexeme.inj found
  rw [← same] at text
  have inside := (List.cons.inj text).2
  refine ⟨by rw [← same], ?_, ?_⟩
  · rw [← inside]
    exact fun character member => List.mem_takeWhile_imp member
  · intro next begins
    have stops := List.head?_dropWhile_not continues (others ++ rest)
    rw [ends, Option.mem_def.mp begins] at stops
    exact stops

/-- A string ends at its quote, whatever follows. -/
theorem quotedString_again (found : quotedString (others ++ rest) = .lexeme lexeme rest)
    (text : lexeme.text = '"' :: others) :
    quotedString (others ++ other) = .lexeme lexeme other := by
  have goesOn : ∀ character ∈ (others ++ rest).takeWhile
      (fun character => character != '"' && character != '\n'),
      (character != '"' && character != '\n') = true := by
    intro character member
    have inside := List.mem_takeWhile_imp member
    exact inside
  unfold quotedString at found
  dsimp only at found
  generalize (others ++ rest).takeWhile _ = inside at found goesOn
  split at found
  · obtain ⟨rfl, _⟩ := Front.lexeme.inj found
    obtain rfl := (List.cons.inj text).2
    rw [List.append_assoc, quotedString, List.takeWhile_append_of_pos goesOn,
      List.dropWhile_append_of_pos goesOn]
    simp
  · cases found

theorem quotedChar_again (found : quotedChar (others ++ rest) = .lexeme lexeme rest)
    (text : lexeme.text = '\'' :: others) :
    quotedChar (others ++ other) = .lexeme lexeme other := by
  generalize whole : others ++ rest = front at found
  unfold quotedChar at found
  split at found
  · cases found
  split at found
  · cases found
  rename_i inside
  split at found
  · obtain ⟨same, _⟩ := Front.lexeme.inj found
    rw [← same] at text
    rw [← same, ← (List.cons.inj text).2]
    exact if_neg inside
  · cases found

end Front

namespace Scanned

open Lexeme (write significant)

/-- A scanned text without what means nothing. -/
def kept (scanned : Scanned) : Scanned :=
  ⟨significant scanned.lexemes, scanned.unexpected⟩

def behind (scanned : Scanned) (front : List Lexeme) : Scanned :=
  ⟨front ++ scanned.lexemes, scanned.unexpected⟩

variable {first : Char} {others rest other text : List Char} {lexeme : Lexeme}
  {lexemes before after : List Lexeme}

theorem kept_lexeme (found : Front.of first others = .lexeme lexeme rest) :
    (ofText (first :: others)).kept = (ofText rest).kept.behind (significant [lexeme]) := by
  rw [ofText_lexeme found]
  simp only [kept, behind, significant]
  rw [← List.filter_append, List.singleton_append]

theorem kept_skipped (found : Front.of first others = .lexeme lexeme rest)
    (skipped : lexeme.isSkipped = true) : (ofText (first :: others)).kept = (ofText rest).kept := by
  rw [kept_lexeme found, significant, List.filter_cons_of_neg (by simp [skipped])]
  rfl

theorem kept_dropBlanks (text : List Char) :
    (ofText (text.dropWhile Lexeme.isBlank)).kept = (ofText text).kept := by
  cases text with
  | nil => rfl
  | cons first rest =>
      by_cases blank : Lexeme.isBlank first
      · have found : Front.of first rest = Front.run .blank first Lexeme.isBlank rest :=
          if_pos blank
        rw [List.dropWhile_cons_of_pos blank, kept_skipped found rfl]
      · rw [List.dropWhile_cons_of_neg blank]

/-- Blanks in front of a text mean nothing. -/
theorem kept_blanks {blanks : List Char}
    (blank : ∀ character ∈ blanks, Lexeme.isBlank character) (text : List Char) :
    (ofText (blanks ++ text)).kept = (ofText text).kept := by
  rw [← kept_dropBlanks, List.dropWhile_append_of_pos blank, kept_dropBlanks]

/-- A comment goes on through the blanks behind it. -/
theorem kept_comment (begins : Lexeme.beginsComment first) (visible : ¬Lexeme.isBlank first)
    (inside : ∀ character ∈ others, (character != '\n') = true)
    (ends : ∀ next ∈ (other.dropWhile Lexeme.isBlank).head?, next = '\n') :
    (ofText (first :: (others ++ other))).kept = (ofText other).kept := by
  have found : Front.of first (others ++ other) =
      Front.run .comment first (· != '\n') (others ++ other) := by
    rw [Front.of, if_neg visible, if_pos begins]
  have blanks : ∀ character ∈ other.takeWhile Lexeme.isBlank, (character != '\n') = true := by
    intro character member
    have blank := List.mem_takeWhile_imp member
    rw [bne_iff_ne]
    rintro rfl
    cases blank
  have stops : ∀ next ∈ (other.dropWhile Lexeme.isBlank).head?, (next != '\n') = false := by
    intro next begins
    rw [ends next begins]
    rfl
  have whole : others ++ other = (others ++ other.takeWhile Lexeme.isBlank) ++
      other.dropWhile Lexeme.isBlank := by
    rw [List.append_assoc, List.takeWhile_append_dropWhile]
  rw [whole, Front.run_ends (List.forall_mem_append.mpr ⟨inside, blanks⟩) stops, ← whole] at found
  rw [kept_skipped found rfl, kept_dropBlanks]

/-- A lexeme is found again in front of another text that separates in the same way. -/
theorem kept_again (found : Front.of first (others ++ rest) = .lexeme lexeme rest)
    (text : lexeme.text = first :: others) (separates : SeparatesAs rest other) :
    (ofText (first :: (others ++ other))).kept =
      (ofText other).kept.behind (significant [lexeme]) := by
  have again (found : Front.of first (others ++ other) = .lexeme lexeme other) := kept_lexeme found
  have skipped (mute : lexeme.isSkipped = true)
      (same : (ofText (first :: (others ++ other))).kept = (ofText other).kept) :
      (ofText (first :: (others ++ other))).kept =
        (ofText other).kept.behind (significant [lexeme]) := by
    rw [same, significant, List.filter_cons_of_neg (by simp [mute])]
    rfl
  unfold Front.of at found again
  split_ifs at found again with blank comment newline comma quote apostrophe
  · obtain ⟨kind, inside, _⟩ := Front.run_found found text
    refine skipped (by rw [Lexeme.isSkipped, kind]; rfl) ?_
    exact kept_blanks (List.forall_mem_cons.mpr ⟨blank, inside⟩) other
  · obtain ⟨kind, inside, ends⟩ := Front.run_found found text
    refine skipped (by rw [Lexeme.isSkipped, kind]; rfl) ?_
    refine kept_comment comment blank inside (separates.line fun next begins => ?_)
    simpa using ends next begins
  · obtain ⟨same, _⟩ := Front.lexeme.inj found
    rw [← same] at text
    obtain rfl := (List.cons.inj text).2
    exact again (by rw [← same]; rfl)
  · obtain ⟨same, _⟩ := Front.lexeme.inj found
    rw [← same] at text
    obtain rfl := (List.cons.inj text).2
    exact again (by rw [← same]; rfl)
  · subst quote
    exact again (Front.quotedString_again found text)
  · subst apostrophe
    exact again (Front.quotedChar_again found text)
  · obtain ⟨kind, inside, ends⟩ := Front.run_found found text
    refine again ?_
    rw [Front.run_ends inside]
    · rw [← kind, ← text]
    · intro next begins
      cases word : Lexeme.isWordCharacter next with
      | false => rfl
      | true =>
          obtain ⟨before, begins, wordBefore⟩ := separates.word next begins word
          rw [ends before begins] at wordBefore
          cases wordBefore

/-- Lexemes that are found one after the other in front of a text. -/
inductive Cuts : List Lexeme → List Char → Prop
  | nil (rest : List Char) : Cuts [] rest
  | cons {lexeme : Lexeme} {more : List Lexeme} {first : Char} {others rest : List Char}
      (text : lexeme.text = first :: others)
      (found : Front.of first (others ++ (write more ++ rest)) = .lexeme lexeme (write more ++ rest))
      (cuts : Cuts more rest) : Cuts (lexeme :: more) rest

/-- What comes before a place means the same when what follows the place separates in the same
way. -/
theorem Cuts.kept (cuts : Cuts before rest) (separates : SeparatesAs rest other) :
    (ofText (write before ++ other)).kept = (ofText other).kept.behind (significant before) := by
  induction cuts with
  | nil => rfl
  | @cons lexeme more first others rest text found _ inductionHypothesis =>
      rw [Lexeme.write_cons, text, List.append_assoc, List.cons_append,
        kept_again found text (separates.behind (write more)), inductionHypothesis separates]
      simp only [behind, significant]
      rw [← List.append_assoc, ← List.filter_append, List.singleton_append]

theorem write_ofText (clean : (ofText text).unexpected = none) :
    write (ofText text).lexemes = text := by
  induction text using text_induction with
  | empty => rw [ofText_nil]; rfl
  | unexpected first rest characters found =>
      rw [ofText_unexpected found] at clean
      cases clean
  | follows first rest lexeme after found inductionHypothesis =>
      rw [ofText_lexeme found] at clean ⊢
      rw [Lexeme.write_cons, inductionHypothesis clean]
      exact (Front.ofPartition found).1.symm

theorem ofText_cons (scanned : ofText text = ⟨lexeme :: lexemes, none⟩) :
    ∃ first others, lexeme.text = first :: others ∧
      Front.of first (others ++ write lexemes) = .lexeme lexeme (write lexemes) ∧
      ofText (write lexemes) = ⟨lexemes, none⟩ := by
  cases text with
  | nil => cases ofText_nil.symm.trans scanned
  | cons first rest =>
      cases found : Front.of first rest with
      | unexpected characters => cases (ofText_unexpected found).symm.trans scanned
      | lexeme other after =>
          have same := (ofText_lexeme found).symm.trans scanned
          obtain ⟨rfl, later⟩ := List.cons.inj (Scanned.mk.inj same).1
          have clean := (Scanned.mk.inj same).2
          have written := write_ofText clean
          rw [later] at written
          obtain ⟨whole, nonempty⟩ := Front.ofPartition found
          obtain ⟨head, others, text⟩ := List.exists_cons_of_ne_nil nonempty
          rw [text, List.cons_append] at whole
          obtain ⟨rfl, rfl⟩ := List.cons.inj whole
          refine ⟨first, others, text, ?_, ?_⟩
          · rw [written]
            exact found
          · rw [written, ← later, ← clean]

/-- A scanned text is cut before any of its lexemes. -/
theorem ofText_cuts (scanned : ofText text = ⟨before ++ after, none⟩) :
    Cuts before (write after) ∧ ofText (write after) = ⟨after, none⟩ := by
  induction before generalizing text with
  | nil =>
      have clean : (ofText text).unexpected = none := congrArg unexpected scanned
      have written := write_ofText clean
      rw [scanned, List.nil_append] at written
      rw [written]
      exact ⟨.nil _, scanned⟩
  | cons lexeme more inductionHypothesis =>
      obtain ⟨first, others, text, found, later⟩ := ofText_cons scanned
      obtain ⟨cuts, ends⟩ := inductionHypothesis later
      change Front.of first (others ++ write (more ++ after)) = .lexeme lexeme (write (more ++ after))
        at found
      rw [Lexeme.write_append] at found
      exact ⟨.cons text found cuts, ends⟩

end Scanned

/-- The lexer goes past what means nothing. -/
theorem Lexer.steps_significant (lexemes : List Lexeme) (lexer : Lexer) :
    (Lexeme.significant lexemes).foldlM Lexer.step lexer = lexemes.foldlM Lexer.step lexer := by
  induction lexemes generalizing lexer with
  | nil => rfl
  | cons lexeme rest inductionHypothesis =>
      rw [Lexeme.significant] at inductionHypothesis ⊢
      cases skipped : lexeme.isSkipped with
      | true =>
          rw [List.filter_cons_of_neg (by simp [skipped]), inductionHypothesis, List.foldlM_cons,
            Lexer.step, if_pos skipped, okBind]
      | false =>
          rw [List.filter_cons_of_pos (by simp [skipped]), List.foldlM_cons, List.foldlM_cons]
          simp only [inductionHypothesis]

/-- Only the lexemes that mean something count for the tokens of a text. -/
theorem lex_kept (interner : Interner) (source : List Char) :
    (lex interner source).value =
      Lexer.finish (Scanned.ofText source).kept.unexpected
        ((Scanned.ofText source).kept.lexemes.foldlM Lexer.step (Lexer.start interner)) := by
  rw [lex_value, Scanned.kept, Lexer.steps_significant]

end RegisterMachine.Source
