/-
This file cuts source text into lexemes. Each lexeme is the longest one that begins where the
one before it ended, and nothing between lexemes is left out.
-/

namespace RegisterMachine.Source

inductive LexemeKind where
  | blank
  | comment
  | newline
  | comma
  | quotedString
  | quotedChar
  | word
  deriving DecidableEq, Repr

/-- A piece of source text with its kind. -/
structure Lexeme where
  kind : LexemeKind
  text : List Char
  deriving DecidableEq, Repr

namespace Lexeme

/-- Space, tabulator, carriage return and form feed. -/
def isBlank (character : Char) : Bool :=
  character == ' ' || character == '\t' || character == '\r' || character == '\x0c'

def beginsComment (character : Char) : Bool :=
  character == ';' || character == '#'

/-- A word ends before a blank, a newline, a comma, a comment or a quote. -/
def isWordCharacter (character : Char) : Bool :=
  !(isBlank character || character == '\n' || character == ',' || beginsComment character ||
    character == '"' || character == '\'')

/-- Blanks and comments mean nothing. -/
def isSkipped (lexeme : Lexeme) : Bool :=
  lexeme.kind = .blank || lexeme.kind = .comment

end Lexeme

/-- What stands at the front of a text: a lexeme and what follows it, or characters that begin
no lexeme. -/
inductive Front where
  | lexeme (first : Lexeme) (rest : List Char)
  | unexpected (text : List Char)
  deriving DecidableEq, Repr

namespace Front

/-- The lexeme that is one character and the run of characters after it. -/
def run (kind : LexemeKind) (first : Char) (continues : Char → Bool) (rest : List Char) : Front :=
  .lexeme ⟨kind, first :: rest.takeWhile continues⟩ (rest.dropWhile continues)

/-- A string ends at the next quote of its line. -/
def quotedString (rest : List Char) : Front :=
  let inside := rest.takeWhile fun character => character != '"' && character != '\n'
  match rest.dropWhile fun character => character != '"' && character != '\n' with
  | '"' :: after => .lexeme ⟨.quotedString, '"' :: (inside ++ ['"'])⟩ after
  | _ => .unexpected ('"' :: inside)

/-- One character of the same line stands between the quotes of a character. -/
def quotedChar : List Char → Front
  | [] => .unexpected ['\'']
  | character :: rest =>
      if character = '\n' then .unexpected ['\'']
      else
        match rest with
        | '\'' :: after => .lexeme ⟨.quotedChar, ['\'', character, '\'']⟩ after
        | _ => .unexpected ['\'', character]

/-- The first character decides the kind. -/
def of (first : Char) (rest : List Char) : Front :=
  if Lexeme.isBlank first then run .blank first Lexeme.isBlank rest
  else if Lexeme.beginsComment first then run .comment first (· != '\n') rest
  else if first = '\n' then .lexeme ⟨.newline, [first]⟩ rest
  else if first = ',' then .lexeme ⟨.comma, [first]⟩ rest
  else if first = '"' then quotedString rest
  else if first = '\'' then quotedChar rest
  else run .word first Lexeme.isWordCharacter rest

theorem runPartition {kind : LexemeKind} {first : Char} {continues : Char → Bool}
    {rest after : List Char} {lexeme : Lexeme}
    (found : run kind first continues rest = .lexeme lexeme after) :
    first :: rest = lexeme.text ++ after ∧ lexeme.text ≠ [] := by
  cases found
  simp

theorem quotedStringPartition {rest after : List Char} {lexeme : Lexeme}
    (found : quotedString rest = .lexeme lexeme after) :
    '"' :: rest = lexeme.text ++ after ∧ lexeme.text ≠ [] := by
  unfold quotedString at found
  split at found
  · rename_i ending
    cases found
    have whole := List.takeWhile_append_dropWhile
      (p := fun character => character != '"' && character != '\n') (l := rest)
    rw [ending] at whole
    simp only [List.cons_append, List.append_assoc, List.nil_append]
    exact ⟨congrArg _ whole.symm, by simp⟩
  · cases found

theorem quotedCharPartition {rest after : List Char} {lexeme : Lexeme}
    (found : quotedChar rest = .lexeme lexeme after) :
    '\'' :: rest = lexeme.text ++ after ∧ lexeme.text ≠ [] := by
  unfold quotedChar at found
  split at found
  · cases found
  · split at found
    · cases found
    · split at found
      · cases found
        simp
      · cases found

/-- A lexeme is not empty, and with what follows it makes up the text. -/
theorem ofPartition {first : Char} {rest after : List Char} {lexeme : Lexeme}
    (found : of first rest = .lexeme lexeme after) :
    first :: rest = lexeme.text ++ after ∧ lexeme.text ≠ [] := by
  unfold of at found
  split at found
  · exact runPartition found
  split at found
  · exact runPartition found
  split at found
  · cases found
    simp
  split at found
  · cases found
    simp
  split at found
  · rename_i quote
    subst quote
    exact quotedStringPartition found
  split at found
  · rename_i quote
    subst quote
    exact quotedCharPartition found
  · exact runPartition found

theorem ofRestShorter {first : Char} {rest after : List Char} {lexeme : Lexeme}
    (found : of first rest = .lexeme lexeme after) : after.length < rest.length + 1 := by
  obtain ⟨whole, nonempty⟩ := ofPartition found
  have lengths := congrArg List.length whole
  simp only [List.length_cons, List.length_append] at lengths
  have := List.length_pos_iff.mpr nonempty
  omega

end Front

/-- The lexemes of a text up to its end or up to characters that begin no lexeme. -/
structure Scanned where
  lexemes : List Lexeme
  unexpected : Option (List Char)
  deriving DecidableEq, Repr

namespace Scanned

def ofTextAfter (before : Array Lexeme) (text : List Char) : Scanned :=
  match text with
  | [] => ⟨before.toList, none⟩
  | first :: rest =>
      match _found : Front.of first rest with
      | .unexpected characters => ⟨before.toList, some characters⟩
      | .lexeme lexeme after => ofTextAfter (before.push lexeme) after
termination_by text.length
decreasing_by exact Front.ofRestShorter _found

def ofText (text : List Char) : Scanned :=
  ofTextAfter #[] text

end Scanned

end RegisterMachine.Source
