/-
This file gives the pattern of each kind of lexeme and proves that the scanner finds the longest
match. A text is cut into matches from its front, up to its end or up to a quote that nothing
closes.
-/

import RegisterMachine.Proofs.Source.Spacing

namespace RegisterMachine.Source

open Lexeme (write)

/-- The texts that the pattern of each kind matches. -/
inductive LexemeKind.Matches : LexemeKind → List Char → Prop
  | blank {text : List Char} (nonempty : text ≠ [])
      (each : ∀ character ∈ text, Lexeme.isBlank character) : Matches .blank text
  | comment {first : Char} {rest : List Char} (begins : Lexeme.beginsComment first)
      (inLine : '\n' ∉ rest) : Matches .comment (first :: rest)
  | newline : Matches .newline ['\n']
  | comma : Matches .comma [',']
  | quotedString {inside : List Char} (noQuote : '"' ∉ inside) (inLine : '\n' ∉ inside) :
      Matches .quotedString ('"' :: (inside ++ ['"']))
  | quotedChar {character : Char} (inLine : character ≠ '\n') :
      Matches .quotedChar ['\'', character, '\'']
  | word {text : List Char} (nonempty : text ≠ [])
      (each : ∀ character ∈ text, Lexeme.isWordCharacter character) : Matches .word text

/-- A match at the front of a text that is longer than every other one. -/
structure Lexeme.Longest (text : List Char) (lexeme : Lexeme) : Prop where
  pattern : lexeme.kind.Matches lexeme.text
  front : lexeme.text <+: text
  longest : ∀ kind other, LexemeKind.Matches kind other → other <+: text →
    ⟨kind, other⟩ = lexeme ∨ other.length < lexeme.text.length

/-- A double quote without another one on the rest of its line. -/
def OpensString (text : List Char) : Prop :=
  ∃ rest, text = '"' :: rest ∧ '"' ∉ rest.takeWhile (· != '\n')

/-- A single quote behind which no character of its line stands in front of another one. -/
def OpensChar (text : List Char) : Prop :=
  ∃ rest, text = '\'' :: rest ∧
    ∀ character after, rest = character :: '\'' :: after → character = '\n'

/-- A quote that nothing closes. -/
def Unclosed (text : List Char) : Prop :=
  OpensString text ∨ OpensChar text

/-- What is shown of a text that begins with such a quote: the rest of the line behind a double
quote, and one character of it behind a single quote. -/
def shownUnclosed : List Char → List Char
  | [] => []
  | '"' :: rest => '"' :: rest.takeWhile (· != '\n')
  | quote :: rest => quote :: (rest.takeWhile (· != '\n')).take 1

/-- Longest matches one after the other from the front of a text up to its rest. -/
inductive Tiles : List Lexeme → (text rest : List Char) → Prop
  | done (rest : List Char) : Tiles [] rest rest
  | more {lexeme : Lexeme} {lexemes : List Lexeme} {text rest : List Char}
      (longest : lexeme.Longest (lexeme.text ++ text)) (others : Tiles lexemes text rest) :
      Tiles (lexeme :: lexemes) (lexeme.text ++ text) rest

namespace LexemeKind

/-- The kind of a lexeme that begins with a character. -/
def ofFirst (first : Char) : LexemeKind :=
  if Lexeme.isBlank first then .blank
  else if Lexeme.beginsComment first then .comment
  else if first = '\n' then .newline
  else if first = ',' then .comma
  else if first = '"' then .quotedString
  else if first = '\'' then .quotedChar
  else .word

theorem ofFirst_blank {first : Char} (blank : Lexeme.isBlank first) : ofFirst first = .blank :=
  if_pos blank

theorem ofFirst_comment {first : Char} (begins : Lexeme.beginsComment first) :
    ofFirst first = .comment := by
  rw [Lexeme.beginsComment, Bool.or_eq_true, beq_iff_eq, beq_iff_eq] at begins
  rcases begins with rfl | rfl <;> rfl

theorem ofFirst_word {first : Char} (word : Lexeme.isWordCharacter first) :
    ofFirst first = .word := by
  simp only [Lexeme.isWordCharacter, Bool.not_eq_true', Bool.or_eq_false_iff,
    beq_eq_false_iff_ne] at word
  simp [ofFirst, word]

/-- The first character of a match tells its pattern. -/
theorem Matches.kind_eq {kind : LexemeKind} {first : Char} {rest : List Char}
    (matched : kind.Matches (first :: rest)) : kind = ofFirst first := by
  cases matched with
  | blank _ each => exact (ofFirst_blank (each first List.mem_cons_self)).symm
  | comment begins => exact (ofFirst_comment begins).symm
  | newline | comma | quotedString | quotedChar => rfl
  | word _ each => exact (ofFirst_word (each first List.mem_cons_self)).symm

theorem Matches.nonempty {kind : LexemeKind} {text : List Char} (matched : kind.Matches text) :
    text ≠ [] := by
  cases matched with
  | blank nonempty | word nonempty => exact nonempty
  | comment | newline | comma | quotedString | quotedChar => nofun

end LexemeKind

open LexemeKind (Matches ofFirst)

/-- A prefix of characters that go on is a prefix of all that go on. -/
theorem prefix_takeWhile {continues : Char → Bool} {others rest : List Char}
    (inside : ∀ character ∈ others, continues character) (front : others <+: rest) :
    others <+: rest.takeWhile continues := by
  obtain ⟨more, rfl⟩ := front
  rw [List.takeWhile_append_of_pos inside]
  exact List.prefix_append _ _

namespace Front

variable {first : Char} {rest after : List Char} {lexeme : Lexeme}

/-- All matches at the front of a text are of one kind, so only matches of this kind are to be
compared. -/
theorem longest_of_kind {kind : LexemeKind} {text : List Char} (same : kind = ofFirst first)
    (pattern : kind.Matches text) (front : text <+: first :: rest)
    (longest : ∀ other, kind.Matches other → other <+: first :: rest → other <+: text) :
    Lexeme.Longest (first :: rest) ⟨kind, text⟩ where
  pattern := pattern
  front := front
  longest := by
    intro otherKind other matched begins
    obtain ⟨character, more, rfl⟩ := List.exists_cons_of_ne_nil matched.nonempty
    obtain rfl := (List.cons_prefix_cons.mp begins).1
    obtain rfl : otherKind = kind := matched.kind_eq.trans same.symm
    have shorter := longest _ matched begins
    rcases Nat.lt_or_eq_of_le shorter.length_le with less | equal
    · exact .inr less
    · exact .inl (congrArg _ (shorter.eq_of_length equal))

/-- A run goes on as long as it can. -/
theorem run_longest {kind : LexemeKind} {continues : Char → Bool} (same : kind = ofFirst first)
    (matches_iff : ∀ others,
      kind.Matches (first :: others) ↔ ∀ character ∈ others, continues character)
    (found : run kind first continues rest = .lexeme lexeme after) :
    lexeme.Longest (first :: rest) := by
  cases found
  apply longest_of_kind same
  · exact (matches_iff _).mpr fun character member => List.mem_takeWhile_imp member
  · exact List.cons_prefix_cons.mpr ⟨rfl, List.takeWhile_prefix _⟩
  · intro other matched begins
    obtain ⟨character, others, rfl⟩ := List.exists_cons_of_ne_nil matched.nonempty
    obtain ⟨rfl, front⟩ := List.cons_prefix_cons.mp begins
    refine List.cons_prefix_cons.mpr ⟨rfl, ?_⟩
    exact prefix_takeWhile ((matches_iff others).mp matched) front

/-- A character that neither ends a string nor its line. -/
def inString (character : Char) : Bool :=
  character != '"' && character != '\n'

theorem inString_iff {text : List Char} :
    (∀ character ∈ text, inString character) ↔ '"' ∉ text ∧ '\n' ∉ text := by
  simp only [inString, Bool.and_eq_true, bne_iff_ne]
  constructor
  · intro each
    exact ⟨fun member => (each _ member).1 rfl, fun member => (each _ member).2 rfl⟩
  · rintro ⟨noQuote, inLine⟩ character member
    exact ⟨fun same => noQuote (same ▸ member), fun same => inLine (same ▸ member)⟩

theorem quotedString_longest (found : quotedString rest = .lexeme lexeme after) :
    lexeme.Longest ('"' :: rest) := by
  obtain ⟨whole, _⟩ := quotedStringPartition found
  unfold quotedString at found
  dsimp only at found
  split at found
  · cases found
    have goesOn : ∀ character ∈ rest.takeWhile inString, inString character :=
      fun character member => List.mem_takeWhile_imp member
    obtain ⟨noQuote, inLine⟩ := inString_iff.mp goesOn
    apply longest_of_kind rfl
    · exact .quotedString noQuote inLine
    · rw [whole]
      exact List.prefix_append _ _
    · intro other matched begins
      cases matched with
      | @quotedString inside noQuoteInside inLineInside =>
          obtain ⟨more, line⟩ := (List.cons_prefix_cons.mp begins).2
          have each := inString_iff.mpr ⟨noQuoteInside, inLineInside⟩
          have same : rest.takeWhile inString = inside := by
            rw [← line, List.append_assoc, List.takeWhile_append_of_pos each]
            exact List.append_nil inside
          change _ <+: '"' :: (rest.takeWhile inString ++ ['"'])
          rewrite [same]
          exact List.prefix_rfl
  · cases found

theorem quotedChar_longest (found : quotedChar rest = .lexeme lexeme after) :
    lexeme.Longest ('\'' :: rest) := by
  unfold quotedChar at found
  split at found
  · cases found
  split at found
  · cases found
  rename_i inLine
  split at found
  · cases found
    apply longest_of_kind rfl
    · exact .quotedChar inLine
    · exact ⟨after, rfl⟩
    · intro other matched begins
      cases matched
      obtain ⟨more, line⟩ := begins
      obtain ⟨_, same⟩ := List.cons.inj line
      obtain rfl := (List.cons.inj same).1
      exact List.prefix_rfl
  · cases found

/-- The scanner finds the longest match. -/
theorem of_longest (found : of first rest = .lexeme lexeme after) :
    lexeme.Longest (first :: rest) := by
  have whole := ofPartition found
  unfold of at found
  split_ifs at found with blank comment newline comma quote apostrophe
  · apply run_longest (LexemeKind.ofFirst_blank blank).symm _ found
    intro others
    constructor
    · rintro ⟨⟩
      rename_i _ each
      exact (List.forall_mem_cons.mp each).2
    · exact fun each => .blank nofun (List.forall_mem_cons.mpr ⟨blank, each⟩)
  · apply run_longest (LexemeKind.ofFirst_comment comment).symm _ found
    intro others
    simp only [bne_iff_ne]
    constructor
    · rintro ⟨⟩
      rename_i _ inLine
      exact fun character member same => inLine (same ▸ member)
    · exact fun each => .comment comment fun member => each _ member rfl
  · cases found
    subst newline
    apply longest_of_kind rfl
    · exact .newline
    · exact ⟨rest, rfl⟩
    · rintro other ⟨⟩ _
      exact List.prefix_rfl
  · cases found
    subst comma
    apply longest_of_kind rfl
    · exact .comma
    · exact ⟨rest, rfl⟩
    · rintro other ⟨⟩ _
      exact List.prefix_rfl
  · subst quote
    exact quotedString_longest found
  · subst apostrophe
    exact quotedChar_longest found
  · have word : Lexeme.isWordCharacter first := by
      simp [Lexeme.isWordCharacter, blank, comment, newline, comma, quote, apostrophe]
    apply run_longest (LexemeKind.ofFirst_word word).symm _ found
    intro others
    constructor
    · rintro ⟨⟩
      rename_i _ each
      exact (List.forall_mem_cons.mp each).2
    · exact fun each => .word nofun (List.forall_mem_cons.mpr ⟨word, each⟩)

/-- A string is closed on its line, or its characters go on to the end of the line. -/
theorem inString_rest (rest : List Char) :
    (∃ after, rest.dropWhile inString = '"' :: after) ∧ '"' ∈ rest.takeWhile (· != '\n') ∨
      (∀ after, rest.dropWhile inString ≠ '"' :: after) ∧
        '"' ∉ rest.takeWhile (· != '\n') ∧
        rest.takeWhile inString = rest.takeWhile (· != '\n') := by
  induction rest with
  | nil => exact .inr ⟨nofun, List.not_mem_nil, rfl⟩
  | cons first rest inductionHypothesis =>
      by_cases quote : first = '"'
      · subst quote
        exact .inl ⟨⟨rest, rfl⟩, List.mem_cons_self⟩
      by_cases newline : first = '\n'
      · subst newline
        exact .inr ⟨nofun, List.not_mem_nil, rfl⟩
      · have goesOn : inString first := by simp [inString, quote, newline]
        have line : (first :: rest).takeWhile (· != '\n') =
            first :: rest.takeWhile (· != '\n') := List.takeWhile_cons_of_pos (by simp [newline])
        rw [List.dropWhile_cons_of_pos goesOn, List.takeWhile_cons_of_pos goesOn, line,
          List.mem_cons, or_iff_right (Ne.symm quote), List.cons_inj_right]
        exact inductionHypothesis

theorem quotedString_closed (closed : ¬OpensString ('"' :: rest)) :
    ∃ lexeme after, quotedString rest = .lexeme lexeme after := by
  unfold quotedString
  dsimp only
  rcases inString_rest rest with ⟨⟨after, ends⟩, _⟩ | ⟨_, noQuote, _⟩
  · change rest.dropWhile (fun character => character != '"' && character != '\n') = _ at ends
    rw [ends]
    exact ⟨_, after, rfl⟩
  · exact absurd ⟨rest, rfl, noQuote⟩ closed

theorem quotedString_unclosed (opens : OpensString ('"' :: rest)) :
    quotedString rest = .unexpected (shownUnclosed ('"' :: rest)) := by
  obtain ⟨_, same, noQuote⟩ := opens
  obtain rfl := (List.cons.inj same).2
  rcases inString_rest rest with ⟨_, quote⟩ | ⟨goesOn, _, same⟩
  · exact absurd quote noQuote
  · unfold quotedString
    dsimp only
    split
    · rename_i after ends
      exact absurd ends (goesOn after)
    · exact congrArg (fun inside => Front.unexpected ('"' :: inside)) same

theorem quotedChar_closed (closed : ¬OpensChar ('\'' :: rest)) :
    ∃ lexeme after, quotedChar rest = .lexeme lexeme after := by
  have found : ∃ character after, rest = character :: '\'' :: after ∧ character ≠ '\n' := by
    by_contra none
    refine closed ⟨rest, rfl, fun character after whole => ?_⟩
    by_contra inLine
    exact none ⟨character, after, whole, inLine⟩
  obtain ⟨character, after, rfl, inLine⟩ := found
  exact ⟨_, after, if_neg inLine⟩

theorem quotedChar_unclosed (opens : OpensChar ('\'' :: rest)) :
    quotedChar rest = .unexpected (shownUnclosed ('\'' :: rest)) := by
  obtain ⟨_, same, ends⟩ := opens
  obtain rfl := (List.cons.inj same).2
  cases rest with
  | nil => rfl
  | cons character more =>
      by_cases newline : character = '\n'
      · subst newline
        rfl
      · have shown : shownUnclosed ('\'' :: character :: more) = ['\'', character] := by
          simp [shownUnclosed, newline]
        rw [shown]
        unfold quotedChar
        dsimp only
        rw [if_neg newline]
        split
        · exact absurd (ends character _ rfl) newline
        · rfl

/-- The scanner stops exactly at a quote that nothing closes. -/
theorem of_unclosed (unclosed : Unclosed (first :: rest)) :
    of first rest = .unexpected (shownUnclosed (first :: rest)) := by
  rcases unclosed with opens | opens
  · obtain ⟨_, same, _⟩ := id opens
    obtain ⟨rfl, rfl⟩ := List.cons.inj same
    exact quotedString_unclosed opens
  · obtain ⟨_, same, _⟩ := id opens
    obtain ⟨rfl, rfl⟩ := List.cons.inj same
    exact quotedChar_unclosed opens

theorem of_closed (closed : ¬Unclosed (first :: rest)) :
    ∃ lexeme after, of first rest = .lexeme lexeme after := by
  rw [Unclosed, not_or] at closed
  unfold of
  split_ifs with blank comment newline comma quote apostrophe
  · exact ⟨_, _, rfl⟩
  · exact ⟨_, _, rfl⟩
  · exact ⟨_, _, rfl⟩
  · exact ⟨_, _, rfl⟩
  · subst quote
    exact quotedString_closed closed.1
  · subst apostrophe
    exact quotedChar_closed closed.2
  · exact ⟨_, _, rfl⟩

theorem unclosed_of {characters : List Char} (found : of first rest = .unexpected characters) :
    Unclosed (first :: rest) := by
  by_contra closed
  obtain ⟨lexeme, after, other⟩ := of_closed closed
  cases found.symm.trans other

end Front

/-- Behind a quote that nothing closes no pattern matches. -/
theorem Unclosed.noMatch {text other : List Char} {kind : LexemeKind} (unclosed : Unclosed text)
    (matched : kind.Matches other) : ¬other <+: text := by
  intro front
  obtain ⟨first, others, rfl⟩ := List.exists_cons_of_ne_nil matched.nonempty
  have kind_eq := matched.kind_eq
  rcases unclosed with ⟨rest, rfl, noQuote⟩ | ⟨rest, rfl, ends⟩
  · obtain ⟨rfl, inside⟩ := List.cons_prefix_cons.mp front
    cases kind_eq
    cases matched with
    | @quotedString between _ inLine =>
        have goesOn : ∀ character ∈ between ++ ['"'], (character != '\n') = true := by
          rw [List.forall_mem_append, List.forall_mem_singleton]
          refine ⟨fun character member => ?_, rfl⟩
          rw [bne_iff_ne]
          exact fun same => inLine (same ▸ member)
        exact noQuote ((prefix_takeWhile goesOn inside).subset
          (List.mem_append_right _ List.mem_cons_self))
  · obtain ⟨rfl, inside⟩ := List.cons_prefix_cons.mp front
    cases kind_eq
    cases matched with
    | quotedChar inLine =>
        obtain ⟨after, rfl⟩ := inside
        exact inLine (ends _ after rfl)

/-- A text has one longest match at its front. -/
theorem Lexeme.Longest.unique {text : List Char} {first second : Lexeme}
    (longest : first.Longest text) (other : second.Longest text) : first = second := by
  rcases longest.longest _ _ other.pattern other.front with same | less
  · exact same.symm
  · rcases other.longest _ _ longest.pattern longest.front with same | more
    · exact same
    · exact absurd less (Nat.lt_asymm more)

/-- The longest match is what the scanner finds. -/
theorem Front.of_tiled {first : Char} {rest after : List Char} {lexeme : Lexeme}
    (longest : lexeme.Longest (lexeme.text ++ after))
    (whole : first :: rest = lexeme.text ++ after) : of first rest = .lexeme lexeme after := by
  rw [← whole] at longest
  have closed : ¬Unclosed (first :: rest) :=
    fun unclosed => unclosed.noMatch longest.pattern longest.front
  obtain ⟨other, remaining, found⟩ := Front.of_closed closed
  obtain rfl := longest.unique (Front.of_longest found)
  rw [(ofPartition found).1] at whole
  rw [found, List.append_cancel_left whole]

namespace Tiles

variable {lexemes others : List Lexeme} {text rest after : List Char}

/-- The matches make up the text before the rest, and each of them takes some of it. -/
theorem partition (tiles : Tiles lexemes text rest) :
    text = write lexemes ++ rest ∧ ∀ lexeme ∈ lexemes, lexeme.text ≠ [] := by
  induction tiles with
  | done => exact ⟨rfl, nofun⟩
  | more longest _ inductionHypothesis =>
      obtain ⟨whole, nonempty⟩ := inductionHypothesis
      rw [List.forall_mem_cons]
      refine ⟨?_, longest.pattern.nonempty, nonempty⟩
      rw [Lexeme.write_cons, List.append_assoc, ← whole]

/-- The scanner finds the matches and goes on with the rest. -/
theorem scanned (tiles : Tiles lexemes text rest) :
    Scanned.ofText text = (Scanned.ofText rest).behind lexemes := by
  induction tiles with
  | done => rfl
  | @more lexeme lexemes text rest longest _ inductionHypothesis =>
      obtain ⟨first, others, front⟩ := List.exists_cons_of_ne_nil longest.pattern.nonempty
      have whole : first :: (others ++ text) = lexeme.text ++ text := by
        rw [front, List.cons_append]
      rw [← whole, Scanned.ofText_lexeme (Front.of_tiled longest whole), inductionHypothesis]
      rfl

end Tiles

/-- The lexemes that the scanner finds are the longest matches up to the end of the text, or up to a
quote that nothing closes. -/
theorem Scanned.ofText_tiles (text : List Char) :
    ∃ rest, Tiles (ofText text).lexemes text rest ∧
      ((ofText text).unexpected = none ∧ rest = [] ∨
        Unclosed rest ∧ (ofText text).unexpected = some (shownUnclosed rest)) := by
  induction text using text_induction with
  | empty =>
      rw [ofText_nil]
      exact ⟨[], .done [], .inl ⟨rfl, rfl⟩⟩
  | unexpected first rest characters found =>
      have unclosed := Front.unclosed_of found
      rw [ofText_unexpected found]
      refine ⟨first :: rest, .done _, .inr ⟨unclosed, ?_⟩⟩
      rw [Front.of_unclosed unclosed] at found
      exact congrArg some (Front.unexpected.inj found).symm
  | follows first rest lexeme after found inductionHypothesis =>
      obtain ⟨last, tiles, ends⟩ := inductionHypothesis
      have longest := Front.of_longest found
      rw [(Front.ofPartition found).1] at longest ⊢
      rw [← (Front.ofPartition found).1, ofText_lexeme found]
      refine ⟨last, ?_, ends⟩
      rw [(Front.ofPartition found).1]
      exact .more longest tiles

/-- Up to a quote that nothing closes all lexemes are found. -/
theorem Tiles.unclosed {lexemes : List Lexeme} {text rest : List Char}
    (tiles : Tiles lexemes text rest) (unclosed : Unclosed rest) :
    Scanned.ofText text = ⟨lexemes, some (shownUnclosed rest)⟩ := by
  rw [tiles.scanned]
  obtain ⟨first, others, rfl⟩ : ∃ first others, rest = first :: others := by
    rcases unclosed with ⟨others, rfl, _⟩ | ⟨others, rfl, _⟩ <;> exact ⟨_, others, rfl⟩
  rw [Scanned.ofText_unexpected (Front.of_unclosed unclosed), Scanned.behind, List.append_nil]

end RegisterMachine.Source
