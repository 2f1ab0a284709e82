/-
This file proves that a mnemonic means the same in any mixture of cases. Each spelling has a symbol
of its own, so the symbols of all later texts may differ, but the lines stand for the same texts.
-/

import RegisterMachine.Proofs.Source.Interning
import RegisterMachine.Proofs.Source.Recasing
import RegisterMachine.Proofs.Source.Rows
import RegisterMachine.Proofs.Source.Spacing

namespace RegisterMachine.Source

open Interner (Extends Sound)

section Tokens

variable {base first second third : Interner}

/-- Interners that share a beginning know its texts by the same symbols. -/
theorem Token.alike_self {token : Token} (known : Known base token.names)
    (grown : Extends base first) (grownOther : Extends base second) :
    Token.Alike first second token token := by
  have same (name : Symbol) (named : name ∈ token.names) : SameText first second name name :=
    ⟨_, grown _ _ (known name named).spells, grownOther _ _ (known name named).spells⟩
  cases token with
  | identifier name => exact .identifier (same name List.mem_cons_self)
  | string text => exact .string (same text List.mem_cons_self)
  | register | integer | char | directive | comma | endOfLine | endOfFile => exact .plain _ rfl

theorem tokens_alike_self {tokens : List Token}
    (known : ∀ token ∈ tokens, Known base token.names) (grown : Extends base first)
    (grownOther : Extends base second) :
    List.Forall₂ (Token.Alike first second) tokens tokens :=
  List.forall₂_same.mpr fun token member => Token.alike_self (known token member) grown grownOther

/-- Tokens that are both like a third one are alike. -/
theorem Token.Alike.through {token other last : Token} (alike : Token.Alike first second token other)
    (next : Token.Alike first third token last) : Token.Alike second third other last := by
  cases alike with
  | identifier same =>
      cases next with
      | identifier sameLast =>
          obtain ⟨text, spelled, spelledOther⟩ := same
          obtain ⟨again, spelledAgain, spelledLast⟩ := sameLast
          rw [← spelled.unique spelledAgain] at spelledLast
          exact .identifier ⟨text, spelledOther, spelledLast⟩
      | plain _ unnamed => cases unnamed
  | string same =>
      cases next with
      | string sameLast =>
          obtain ⟨text, spelled, spelledOther⟩ := same
          obtain ⟨again, spelledAgain, spelledLast⟩ := sameLast
          rw [← spelled.unique spelledAgain] at spelledLast
          exact .string ⟨text, spelledOther, spelledLast⟩
      | plain _ unnamed => cases unnamed
  | plain token unnamed =>
      cases next with
      | identifier | string => cases unnamed
      | plain => exact .plain token unnamed

theorem tokens_alike_through {tokens others last : List Token}
    (alike : List.Forall₂ (Token.Alike first second) tokens others)
    (next : List.Forall₂ (Token.Alike first third) tokens last) :
    List.Forall₂ (Token.Alike second third) others last := by
  induction alike generalizing last with
  | nil =>
      cases next
      exact .nil
  | cons same _ inductionHypothesis =>
      cases next with
      | cons sameLast rest => exact .cons (same.through sameLast) (inductionHypothesis rest)

end Tokens

/-- Lexers in the same place of a line go on alike, whatever they know and have found before. -/
theorem Lexer.steps_apart {first after : Lexer} (second : Lexer) {lexemes : List Lexeme}
    (stepped : lexemes.foldlM Lexer.step first = .ok after) (sound : first.interner.Sound)
    (soundOther : second.interner.Sound) (line : second.line = first.line)
    (onLine : second.onLine = first.onLine) :
    ∃ afterOther back backOther, lexemes.foldlM Lexer.step second = .ok afterOther ∧
      after.tokens.toList = first.tokens.toList ++ back ∧
      afterOther.tokens.toList = second.tokens.toList ++ backOther ∧
      List.Forall₂ (Token.Alike after.interner afterOther.interner) back backOther := by
  -- both are compared with a lexer that has no tokens yet
  let bare : Lexer := { first with tokens := #[] }
  have begins : Lexer.Alike first.tokens.toList 0 bare first :=
    ⟨sound, sound, rfl, rfl, [], (List.append_nil _).symm, .nil⟩
  have beginsOther : Lexer.Alike second.tokens.toList 0 bare second :=
    ⟨sound, soundOther, line, onLine, [], (List.append_nil _).symm, .nil⟩
  have ends := Lexer.steps_alike begins lexemes
  have endsOther := Lexer.steps_alike beginsOther lexemes
  rw [stepped] at ends
  generalize lexemes.foldlM Lexer.step bare = result at ends endsOther
  cases ends with
  | ok alike =>
      generalize lexemes.foldlM Lexer.step second = resultOther at endsOther ⊢
      cases endsOther with
      | ok alikeOther =>
          obtain ⟨_, _, _, _, back, whole, tokens⟩ := alike
          obtain ⟨_, _, _, _, backOther, wholeOther, tokensOther⟩ := alikeOther
          exact ⟨_, back, backOther, rfl, whole, wholeOther,
            tokens_alike_through tokens tokensOther⟩

section Spelling

variable {interner : Interner} {phrase : Phrase} {taken between rest : List Token} {name : Symbol}
  {text : String}

/-- The parser finds the same behind some tokens when the name after them is written in another
case, whatever else the interner knows. -/
def IgnoresCase (interner : Interner) (between : List Token) (name : Symbol) (text : String)
    (rest : List Token) : Prop :=
  ∀ {current : Interner}, Extends interner current → current.Sound →
    ∀ {other : Symbol} {spelling : String}, current.Spells other spelling →
      Text.lowercase spelling = Text.lowercase text → ∀ line position,
        outline current line ⟨between ++ .identifier name :: rest, position⟩ =
          outline current line ⟨between ++ .identifier other :: rest, position⟩

/-- What follows a phrase may begin with another name. -/
theorem Phrase.Reads.of_renamed {other : Symbol}
    (reads : phrase.Reads interner taken (between ++ .identifier name :: rest)) :
    phrase.Reads interner taken (between ++ .identifier other :: rest) := by
  cases between with
  | nil => exact reads.of_following nofun fun _ => rfl
  | cons => exact reads.of_following id id

/-- The case of its mnemonic does not matter to an instruction. -/
theorem ignoresCase_mnemonic {content : Instruction} {operands : List Operand}
    {written : List Token} (spelled : interner.Spells name text)
    (mnemonic : Text.lowercase text = content.opcode.mnemonic)
    (stands : OperandsWritten content.opcode.slots operands written)
    (filled : content.operands.toList =
      operands ++ List.replicate (2 - content.opcode.arity) .absent) :
    IgnoresCase interner [] name text (written ++ rest) := by
  intro current grown _ other spelling spelledOther same line position
  have here : (Phrase.instruction content).Reads current (.identifier name :: written) rest :=
    .instruction _ (grown _ _ spelled) mnemonic stands filled
  have hereOther : (Phrase.instruction content).Reads current (.identifier other :: written) rest :=
    .instruction _ spelledOther (same.trans mnemonic) stands filled
  have found := here.outlined line position
  have foundOther := hereOther.outlined line position
  exact found.trans foundOther.symm

/-- What is ignored behind a phrase is ignored with the phrase in front. -/
theorem IgnoresCase.behind (ignores : IgnoresCase interner between name text rest)
    (reads : phrase.Reads interner taken (between ++ .identifier name :: rest)) :
    IgnoresCase interner (taken ++ between) name text rest := by
  intro current grown sound other spelling spelledOther same line position
  have here : phrase.Reads current taken (between ++ .identifier name :: rest) :=
    reads.transfer fun _ _ name _ text => grown name text
  have hereOther : phrase.Reads current taken (between ++ .identifier other :: rest) :=
    here.of_renamed
  obtain ⟨soundItem, grownItem⟩ := phrase.item_grown sound
  rw [List.append_assoc, List.append_assoc, here.outlined, hereOther.outlined,
    ignores (grown.trans grownItem) soundItem (grownItem _ _ spelledOther) same]

/-- The parser finds the same where a mnemonic is written in another case. -/
theorem Split.ignoresCase {front back : List (Phrase × List Token)} {content : Instruction}
    {tokens : List Token}
    (split : Split interner (front ++ (.instruction content, taken) :: back) tokens)
    (closes : Closes rest) :
    ∃ name text more, tokens = front.flatMap Prod.snd ++ .identifier name :: more ∧
      interner.Spells name text ∧
      IgnoresCase interner (front.flatMap Prod.snd) name text (more ++ rest) := by
  induction front generalizing tokens with
  | nil =>
      cases split with
      | @more _ _ following _ reads _ =>
          cases reads with
          | @instruction name text _ _ written _ spelled mnemonic stands filled =>
              refine ⟨name, text, written ++ following, rfl, spelled, ?_⟩
              rw [List.append_assoc]
              exact ignoresCase_mnemonic spelled mnemonic stands filled
  | cons item front inductionHypothesis =>
      cases split with
      | more reads split =>
          obtain ⟨name, text, more, rfl, spelled, ignores⟩ := inductionHypothesis split
          have extended := reads.extend closes
          rw [List.append_assoc, List.cons_append] at extended
          refine ⟨name, text, more, ?_, spelled, ignores.behind extended⟩
          rw [List.flatMap_cons, List.append_assoc]

end Spelling

/-- Lines alike to lines that are alike to others. -/
theorem lines_alike_trans {first second third : Interner} {lines others last : List NumberedLine}
    (alike : List.Forall₂ (NumberedLine.Alike first second 0) lines others)
    (next : List.Forall₂ (NumberedLine.Alike second third 0) others last) :
    List.Forall₂ (NumberedLine.Alike first third 0) lines last := by
  induction alike generalizing last with
  | nil =>
      cases next
      exact .nil
  | cons same _ inductionHypothesis =>
      cases next with
      | cons sameLast rest =>
          exact .cons ⟨sameLast.number.trans same.number, same.content.trans sameLast.content⟩
            (inductionHypothesis rest)

/-- The parser takes what follows some lexemes of a source for the mnemonic of an instruction. -/
def MnemonicFollows (source : String) (before : List Lexeme) : Prop :=
  ∃ tokens names front content taken back lexer,
    Phrased source tokens names (front ++ (.instruction content, taken) :: back) ∧
      before.foldlM Lexer.step (Lexer.start Interner.empty) = .ok lexer ∧
      lexer.onLine < lexemesPerLine ∧ lexer.tokens.toList = front.flatMap Prod.snd

theorem Lexer.step_word {lexer : Lexer} {lexeme : Lexeme} (word : lexeme.kind = .word)
    (room : lexer.onLine < lexemesPerLine) : lexer.step lexeme = lexer.take lexeme.text := by
  have kept : ¬lexeme.isSkipped = true := by simp [Lexeme.isSkipped, word]
  have inLine : lexeme.kind ≠ .newline := by simp [word]
  rw [Lexer.step, if_neg kept, if_neg inLine, if_pos room]

/-- Tokens of two sources that are the same up to a name, which the sources spell in different ways,
and that are alike behind it. -/
structure Respelled (base : Interner) (front : List Token) (name spelling : String)
    (lexed lexedOther : List Token × Interner) : Prop where
  sound : lexed.2.Sound
  soundOther : lexedOther.2.Sound
  grown : Extends base lexed.2
  grownOther : Extends base lexedOther.2
  known : ∀ token ∈ front, Known base token.names
  tokens : ∃ symbol other back backOther, lexed.1 = front ++ .identifier symbol :: back ∧
    lexedOther.1 = front ++ .identifier other :: backOther ∧ lexed.2.Spells symbol name ∧
    lexedOther.2.Spells other spelling ∧
    List.Forall₂ (Token.Alike lexed.2 lexedOther.2) back backOther

/-- A lexer that goes on behind two spellings of a name. -/
theorem Lexer.steps_respelled {lexer last : Lexer} {lexeme respelling : Lexeme}
    {after : List Lexeme} {name spelling : String}
    (sound : lexer.interner.Sound) (informed : lexer.Informed)
    (room : lexer.onLine < lexemesPerLine) (word : lexeme.kind = .word)
    (wordOther : respelling.kind = .word)
    (reads : Reading.of? lexeme.text = some (.identifier name))
    (readsOther : Reading.of? respelling.text = some (.identifier spelling))
    (stepped : (lexeme :: after).foldlM Lexer.step lexer = .ok last) :
    ∃ lastOther, (respelling :: after).foldlM Lexer.step lexer = .ok lastOther ∧
      Respelled lexer.interner lexer.tokens.toList name spelling
        (last.tokens.toList, last.interner) (lastOther.tokens.toList, lastOther.interner) := by
  obtain ⟨log, taken⟩ := lexer.take_ok reads
  obtain ⟨logOther, takenOther⟩ := lexer.take_ok readsOther
  rw [List.foldlM_cons, step_word word room, taken, okBind] at stepped
  rw [List.foldlM_cons, step_word wordOther room, takenOther, okBind]
  obtain ⟨soundName, grownName, spelled⟩ := sound.intern name
  obtain ⟨soundOther, grownOther, spelledOther⟩ := sound.intern spelling
  let second : Lexer := ⟨lexer.tokens.push (.identifier (lexer.interner.intern spelling).1),
    (lexer.interner.intern spelling).2, logOther, lexer.line, lexer.onLine + 1⟩
  obtain ⟨lastOther, back, backOther, steppedOther, whole, wholeOther, alike⟩ :=
    steps_apart second stepped soundName soundOther rfl rfl
  obtain ⟨soundLast, grownLast⟩ := (steps_grows stepped).extends_sound soundName
  obtain ⟨soundLastOther, grownLastOther⟩ := (steps_grows steppedOther).extends_sound soundOther
  refine ⟨lastOther, steppedOther, soundLast, soundLastOther, grownName.trans grownLast,
    grownOther.trans grownLastOther, informed.tokens, _, _, back, backOther, ?_, ?_,
    grownLast _ _ spelled, grownLastOther _ _ spelledOther, alike⟩
  · rw [whole, Array.toList_push, List.append_assoc]
    rfl
  · rw [wholeOther, Array.toList_push, List.append_assoc]
    rfl

section Respelling

variable {base names namesOther : Interner} {front back : List (Phrase × List Token)}
  {content : Instruction} {taken tokens others : List Token} {name spelling : String}

/-- The parser finds lines alike behind a mnemonic that is written in another way. -/
theorem Respelled.outlines
    (respelled : Respelled base (front.flatMap Prod.snd) name spelling (tokens, names)
      (others, namesOther))
    (split : Split names (front ++ (.instruction content, taken) :: back) tokens)
    (known : ∀ token ∈ tokens, Known names token.names)
    (same : Text.lowercase spelling = Text.lowercase name)
    (reached : (outline names 1 ⟨tokens ++ [.endOfFile], 0⟩).stop = none) :
    let found := outline names 1 ⟨tokens ++ [.endOfFile], 0⟩
    let foundOther := outline namesOther 1 ⟨others ++ [.endOfFile], 0⟩
    foundOther.stop = none ∧
      List.Forall₂ (NumberedLine.Alike found.interner foundOther.interner 0) found.lines
        foundOther.lines := by
  obtain ⟨sound, soundOther, grown, grownOther, knownFront, symbol, other, more, moreOther, whole,
    wholeOther, spelled, spelledOther, alike⟩ := respelled
  have closes : Closes [.endOfFile] := ⟨nofun, nofun⟩
  obtain ⟨first, text, behind, wholeAgain, spelledFirst, ignores⟩ := split.ignoresCase closes
  dsimp only at whole wholeOther
  obtain ⟨sameName, rfl⟩ := List.cons.inj (List.append_cancel_left (whole.symm.trans wholeAgain))
  obtain rfl := Token.identifier.inj sameName
  obtain rfl := spelled.unique spelledFirst
  have closed (lines : Interner) {last : Interner} :
      List.Forall₂ (Token.Alike lines last) [.endOfFile] [.endOfFile] :=
    .cons (.plain .endOfFile rfl) .nil
  -- an interner that knows both spellings lies between the two sources
  obtain ⟨soundBoth, grownBoth, spelledBoth⟩ := sound.intern spelling
  have begins : TokenStream.Alike names (names.intern spelling).2 ⟨tokens ++ [.endOfFile], 0⟩
      ⟨tokens ++ [.endOfFile], 0⟩ :=
    List.rel_append (tokens_alike_self known (.refl names) grownBoth) (closed names)
  have ends : TokenStream.Alike (names.intern spelling).2 namesOther
      ⟨front.flatMap Prod.snd ++
        .identifier (names.intern spelling).1 :: (more ++ [.endOfFile]), 0⟩
      ⟨others ++ [.endOfFile], 0⟩ := by
    rw [wholeOther, TokenStream.Alike, List.append_assoc, List.cons_append]
    refine List.rel_append
      (tokens_alike_self knownFront (grown.trans grownBoth) grownOther) (.cons ?_ ?_)
    · exact .identifier ⟨spelling, spelledBoth, spelledOther⟩
    · refine List.rel_append (alike.imp fun _ _ same => ?_) (closed _)
      exact same.mono grownBoth (.refl namesOther)
  have between := ignores grownBoth soundBoth spelledBoth same 1 0
  have lines := outline_alike sound soundBoth begins 1 0
  have linesOther := outline_alike soundBoth soundOther ends 1 0
  rw [← between, Nat.add_zero, ← List.cons_append, ← List.append_assoc, ← whole] at linesOther
  rw [Nat.add_zero] at lines
  refine ⟨?_, lines_alike_trans lines.lines linesOther.lines⟩
  have stop := lines.stop
  have stopOther := linesOther.stop
  rw [reached] at stop
  generalize (outline (names.intern spelling).2 1 ⟨tokens ++ [.endOfFile], 0⟩).stop = middle
    at stop stopOther
  cases stop
  generalize (outline namesOther 1 ⟨others ++ [.endOfFile], 0⟩).stop = last at stopOther
  cases stopOther
  rfl

end Respelling

/-- A source is read into the same lines where a mnemonic is written in another way. -/
theorem read_respelled {capacity : Nat} {source other : String} {program : Program}
    {interner : Interner} {before after : List Lexeme} {lexeme respelling : Lexeme}
    {name spelling : String} (done : (read capacity source).value = .ok (program, interner))
    (kept : (Scanned.ofText source.toList).kept =
      ⟨Lexeme.significant (before ++ lexeme :: after), none⟩)
    (keptOther : (Scanned.ofText other.toList).kept =
      ⟨Lexeme.significant (before ++ respelling :: after), none⟩)
    (follows : MnemonicFollows source before) (word : lexeme.kind = .word)
    (wordOther : respelling.kind = .word)
    (reads : Reading.of? lexeme.text = some (.identifier name))
    (readsOther : Reading.of? respelling.text = some (.identifier spelling))
    (same : Text.lowercase spelling = Text.lowercase name) :
    ∃ programOther last, (read capacity other).value = .ok (programOther, last) ∧
      List.Forall₂ (NumberedLine.Alike interner last 0) program.toList programOther.toList := by
  obtain ⟨tokens, names, front, content, taken, back, lexer, phrased, stepped, room, front_eq⟩ :=
    follows
  have lexed := phrased.lexed
  rw [lex_kept, kept, Lexer.steps_significant, List.foldlM_append, stepped, okBind] at lexed
  cases steppedBack : (lexeme :: after).foldlM Lexer.step lexer with
  | error reason =>
      rw [steppedBack] at lexed
      cases lexed
  | ok last =>
      rw [steppedBack] at lexed
      obtain ⟨tokens_eq, rfl⟩ := Prod.mk.inj (Except.ok.inj lexed)
      obtain rfl := List.append_cancel_right tokens_eq
      have sound := ((Lexer.steps_grows stepped).extends_sound .empty).1
      have informed : lexer.Informed :=
        Lexer.Informed.steps ⟨Interner.empty_consistent, by simp [Lexer.start]⟩ stepped
      obtain ⟨lastOther, steppedOther, respelled⟩ :=
        Lexer.steps_respelled sound informed room word wordOther reads readsOther steppedBack
      rw [front_eq] at respelled
      obtain ⟨tokens, names, lexedAgain, reached, rfl, contents⟩ := read_outline done
      obtain ⟨rfl, rfl⟩ := Prod.mk.inj (Except.ok.inj (phrased.lexed.symm.trans lexedAgain))
      obtain ⟨reachedOther, alike⟩ :=
        respelled.outlines phrased.split phrased.known same reached
      have lexedOther : (lex Interner.empty other.toList).value =
          .ok (lastOther.tokens.toList ++ [.endOfFile], lastOther.interner) := by
        rw [lex_kept, keptOther, Lexer.steps_significant, List.foldlM_append, stepped, okBind,
          steppedOther]
        rfl
      have enough : (outline lastOther.interner 1
          ⟨lastOther.tokens.toList ++ [.endOfFile], 0⟩).lines.length ≤ capacity := by
        rw [← alike.length_eq]
        refine Nat.le_trans (Nat.le_of_eq ?_) (read_room done)
        rw [program.size_eq, contents]
        rfl
      obtain ⟨programOther, doneOther, contentsOther⟩ :=
        read_of_outline lexedOther reachedOther enough
      refine ⟨programOther, _, doneOther, ?_⟩
      rw [contents, contentsOther]
      exact alike

end RegisterMachine.Source
