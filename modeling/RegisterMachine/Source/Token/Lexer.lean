/-
This file turns source text into tokens. A line keeps its first 32 lexemes, and lexemes past them
are dropped.
-/

import RegisterMachine.Diagnostic
import RegisterMachine.Source.Lexeme
import RegisterMachine.Source.Token.Reading
import RegisterMachine.Source.Token.Basic

namespace RegisterMachine.Source

/-- Text that has no tokens, with the line it stands on. -/
inductive LexError where
  | malformed (line : Nat) (text : String)
  | unexpected (line : Nat) (text : String)
  deriving DecidableEq, Repr

namespace LexError

def line : LexError → Nat
  | malformed line _ | unexpected line _ => line

def message : LexError → String
  | malformed line text => s!"line {line}: malformed lexeme `" ++ text ++ "`"
  | unexpected line text => s!"line {line}: unexpected input `" ++ text ++ "`"

end LexError

/-- A line keeps this many lexemes other than blanks and comments. -/
def lexemesPerLine : Nat := 32

/-- The token of a reading; texts of names and strings are interned. -/
def Token.ofReading (interner : Interner) : Reading → Token × Interner
  | .comma => (.comma, interner)
  | .endOfLine => (.endOfLine, interner)
  | .register named => (.register named, interner)
  | .directive named => (.directive named, interner)
  | .integer value _ => (.integer value, interner)
  | .char byte => (.char byte, interner)
  | .string text =>
      let (symbol, extended) := interner.intern text
      (.string symbol, extended)
  | .identifier name =>
      let (symbol, extended) := interner.intern name
      (.identifier symbol, extended)

/-- A number beyond its range is reported with the lexeme as it was written. -/
def Reading.reports (line : Nat) (characters : List Char) : Reading → List Diagnostic
  | .integer _ (some .above) => [.literalAboveRange line (String.ofList characters)]
  | .integer _ (some .below) => [.literalBelowRange line (String.ofList characters)]
  | _ => []

/-- The token of one lexeme, if it has one. -/
def classify (interner : Interner) (line : Nat) (characters : List Char) :
    Logged (Option (Token × Interner)) :=
  match Reading.of? characters with
  | none => ⟨[], none⟩
  | some reading => ⟨reading.reports line characters, some (Token.ofReading interner reading)⟩

/-- The tokens so far, and where in the text their end is. -/
structure Lexer where
  tokens : Array Token
  interner : Interner
  log : Array Diagnostic
  /-- Lines count from one. -/
  line : Nat
  /-- Lexemes seen on the line, dropped ones included. -/
  onLine : Nat

namespace Lexer

def start (interner : Interner) : Lexer :=
  ⟨#[], interner, #[], 1, 0⟩

def newline (lexer : Lexer) : Lexer :=
  { lexer with tokens := lexer.tokens.push .endOfLine, line := lexer.line + 1, onLine := 0 }

/-- Only the first lexeme past the limit is reported. -/
def drop (lexer : Lexer) : Lexer :=
  let log :=
    if lexer.onLine = lexemesPerLine then lexer.log.push (.lineTruncated lexer.line)
    else lexer.log
  { lexer with log, onLine := lexer.onLine + 1 }

/-- A lexeme that stands for nothing is malformed; reports made before it are kept. -/
def take (lexer : Lexer) (characters : List Char) : Except (Array Diagnostic × LexError) Lexer :=
  let ⟨tokens, interner, log, line, onLine⟩ := lexer
  let classified := classify interner line characters
  match classified.value with
  | none => .error (log, .malformed line (String.ofList characters))
  | some (token, interner) =>
      .ok ⟨tokens.push token, interner, log.appendList classified.log, line, onLine + 1⟩

def step (lexer : Lexer) (lexeme : Lexeme) : Except (Array Diagnostic × LexError) Lexer :=
  if lexeme.isSkipped then .ok lexer
  else if lexeme.kind = .newline then .ok lexer.newline
  else if lexer.onLine < lexemesPerLine then lexer.take lexeme.text
  else .ok lexer.drop

end Lexer

/-- The tokens end with an end of file. An error about a lexeme comes before one about
characters further on. -/
def lex (interner : Interner) (source : List Char) :
    Logged (Except LexError (List Token × Interner)) :=
  let scanned := Scanned.ofText source
  match scanned.lexemes.foldlM Lexer.step (Lexer.start interner) with
  | .error (log, error) => ⟨log.toList, .error error⟩
  | .ok ⟨tokens, interner, log, line, _⟩ =>
      match scanned.unexpected with
      | some characters => ⟨log.toList, .error (.unexpected line (String.ofList characters))⟩
      | none =>
          let tokens := tokens.push .endOfFile
          ⟨(log.push (.lexedSource tokens.size line)).toList, .ok (tokens.toList, interner)⟩

end RegisterMachine.Source
