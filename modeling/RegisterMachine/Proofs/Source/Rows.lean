/-
This file proves that each line of a program is written as a row that is read as this line again.
-/

import RegisterMachine.Proofs.Source.Composition
import RegisterMachine.Proofs.Source.Written

namespace RegisterMachine

theorem Opcode.reading_mnemonic (opcode : Opcode) :
    Source.Reading.of? opcode.mnemonic.toList = some (.identifier opcode.mnemonic) := by
  cases opcode <;> decide +kernel

/-- The name of a known directive is one word and is read as the directive. -/
theorem Directive.name_written {directive : Directive} (known : directive ≠ .unknown) :
    Source.Lexeme.Stands ⟨.word, directive.name.toList⟩ ∧
      Source.Reading.of? directive.name.toList = some (.directive directive) := by
  have written : directive.name.toList ≠ [] ∧
      directive.name.toList.all Source.Lexeme.isWordCharacter ∧
      Source.Reading.of? directive.name.toList = some (.directive directive) := by
    cases directive with
    | unknown => exact absurd rfl known
    | start | data | rodata | global => decide +kernel
  obtain ⟨nonempty, inside, read⟩ := written
  exact ⟨.word nonempty (List.all_eq_true.mp inside), read⟩

namespace Source

open Interner (Extends Sound)

namespace Scanned

variable {lexeme : Lexeme} {rest : List Char}

theorem ofText_stands (stands : lexeme.Stands) (separated : Separated rest) :
    ofText (lexeme.text ++ rest) =
      ⟨lexeme :: (ofText rest).lexemes, (ofText rest).unexpected⟩ := by
  obtain ⟨first, others, text, found⟩ := stands.found rest separated
  rw [text]
  exact ofText_lexeme found

/-- A lexeme behind a blank is found like one without. -/
theorem ofText_blank (stands : lexeme.Stands) (separated : Separated rest) :
    ofText (' ' :: (lexeme.text ++ rest)) =
      ⟨⟨.blank, [' ']⟩ :: lexeme :: (ofText rest).lexemes, (ofText rest).unexpected⟩ := by
  obtain ⟨first, others, text, found⟩ := stands.found rest separated
  have visible : Lexeme.isBlank first = false := by
    cases blank : Lexeme.isBlank first with
    | false => rfl
    | true =>
        have kept := stands.kept
        rw [Front.of, if_pos blank, Front.run] at found
        rw [← (Front.lexeme.inj found).1] at kept
        cases kept
  have front : Front.of ' ' (lexeme.text ++ rest) =
      .lexeme ⟨.blank, [' ']⟩ (lexeme.text ++ rest) := by
    change Front.run .blank ' ' Lexeme.isBlank _ = _
    rw [text, Front.run, List.cons_append, List.takeWhile_cons_of_neg (by simp [visible]),
      List.dropWhile_cons_of_neg (by simp [visible])]
  rw [ofText_lexeme front, ofText_stands stands separated]

theorem ofText_comma (rest : List Char) :
    ofText (',' :: rest) =
      ⟨⟨.comma, [',']⟩ :: (ofText rest).lexemes, (ofText rest).unexpected⟩ :=
  ofText_lexeme rfl

end Scanned

/-- The lexemes of one line that are read, in order. -/
inductive ReadAs : List Lexeme → List Reading → Prop
  | done : ReadAs [] []
  | skip {lexeme : Lexeme} {lexemes : List Lexeme} {readings : List Reading}
      (skipped : lexeme.isSkipped = true) (rest : ReadAs lexemes readings) :
      ReadAs (lexeme :: lexemes) readings
  | keep {lexeme : Lexeme} {lexemes : List Lexeme} {reading : Reading} {readings : List Reading}
      (kept : lexeme.isSkipped = false) (inLine : lexeme.kind ≠ .newline)
      (read : Reading.of? lexeme.text = some reading) (rest : ReadAs lexemes readings) :
      ReadAs (lexeme :: lexemes) (reading :: readings)

theorem Lexer.take_ok (lexer : Lexer) {characters : List Char} {reading : Reading}
    (read : Reading.of? characters = some reading) :
    ∃ log, lexer.take characters =
      .ok ⟨lexer.tokens.push (Token.ofReading lexer.interner reading).1,
        (Token.ofReading lexer.interner reading).2, log, lexer.line, lexer.onLine + 1⟩ := by
  unfold Lexer.take classify
  rw [read]
  exact ⟨_, rfl⟩

/-- A lexer takes the lexemes of a line that has room for them, and adds a token for each. -/
theorem ReadAs.steps {lexemes : List Lexeme} {readings before : List Reading} {lexer : Lexer}
    (readAs : ReadAs lexemes readings) (sound : lexer.interner.Sound)
    (tokens : List.Forall₂ (Token.Represents lexer.interner) lexer.tokens.toList before)
    (room : lexer.onLine + readings.length ≤ lexemesPerLine) :
    ∃ after, lexemes.foldlM Lexer.step lexer = .ok after ∧ after.interner.Sound ∧
      List.Forall₂ (Token.Represents after.interner) after.tokens.toList (before ++ readings) := by
  induction readAs generalizing lexer before with
  | done => exact ⟨lexer, rfl, sound, by rwa [List.append_nil]⟩
  | skip skipped rest inductionHypothesis =>
      rw [List.foldlM_cons, Lexer.step, if_pos skipped]
      exact inductionHypothesis sound tokens room
  | @keep lexeme lexemes reading readings kept inLine read rest inductionHypothesis =>
      rw [List.length_cons] at room
      obtain ⟨soundLater, grown⟩ := Token.ofReading_grown sound reading
      have notSkipped : ¬lexeme.isSkipped = true := by simp [kept]
      rw [List.foldlM_cons, Lexer.step, if_neg notSkipped, if_neg inLine, if_pos (by omega)]
      obtain ⟨log, taken⟩ := lexer.take_ok read
      rw [taken, okBind, List.append_cons]
      refine inductionHypothesis soundLater ?_ (by dsimp only; omega)
      rw [Array.toList_push]
      have earlier := tokens.imp fun _ _ represents => represents.mono grown
      exact List.rel_append earlier (.cons (Token.ofReading_represents sound reading) .nil)

/-- The tokens of a text that is one line. -/
theorem lex_line {text : List Char} {lexemes : List Lexeme} {readings : List Reading}
    (scanned : Scanned.ofText text = ⟨lexemes, none⟩) (readAs : ReadAs lexemes readings)
    (room : readings.length ≤ lexemesPerLine) :
    ∃ tokens names, (lex Interner.empty text).value = .ok (tokens ++ [.endOfFile], names) ∧
      names.Sound ∧ List.Forall₂ (Token.Represents names) tokens readings := by
  have start : List.Forall₂ (Token.Represents Interner.empty)
      (Lexer.start Interner.empty).tokens.toList [] := .nil
  have begins : (Lexer.start Interner.empty).interner.Sound := .empty
  obtain ⟨after, stepped, sound, tokens⟩ :=
    readAs.steps begins start ((Nat.zero_add _).trans_le room)
  refine ⟨after.tokens.toList, after.interner, ?_, sound, tokens⟩
  rw [lex_value, scanned, stepped]
  rfl

/-- A text that is one phrase is read as one line. -/
theorem read_line {text : String} {tokens : List Token} {names : Interner} {phrase : Phrase}
    (lexed : (lex Interner.empty text.toList).value = .ok (tokens ++ [.endOfFile], names))
    (sound : names.Sound) (reads : phrase.Reads names tokens []) (isLine : phrase.isLine) :
    ∃ program after line, (read 1 text).value = .ok (program, after) ∧ Extends names after ∧
      program.toList = [⟨1, line⟩] ∧ phrase.Stands after line := by
  have before := beforeEnd_concat reads.notEnd
  have split : Split names [(phrase, tokens)] (beforeEnd (tokens ++ [.endOfFile])) := by
    have whole := Split.more reads .done
    rw [List.append_nil] at whole
    rwa [before]
  obtain ⟨reached, grown, stands⟩ := split.outlined_end sound 1 0
  have alone : numbered 1 [(phrase, tokens)] = [(1, phrase)] := by
    rw [numbered, if_pos isLine]
    rfl
  rw [alone] at stands
  obtain ⟨line, others, ⟨number, content⟩, none, lines⟩ := List.forall₂_cons_left_iff.mp stands
  obtain rfl := List.forall₂_nil_left_iff.mp none
  have room : (outline names 1 ⟨tokens ++ [.endOfFile], 0⟩).lines.length ≤ 1 := by
    rw [lines]
    exact Nat.le_refl 1
  obtain ⟨program, done, contents⟩ := read_of_outline lexed reached room
  refine ⟨program, _, line.content, done, grown, ?_, content⟩
  have first : line.number = 1 := number
  rw [contents, lines, ← first]

/-- What is written behind the first word of a row for some operands. -/
inductive Operands.WrittenAs (interner : Interner) :
    Operands → List Lexeme → List Reading → Prop
  | bare : WrittenAs interner ⟨.absent, .absent⟩ [] []
  | one {operand : Operand} {lexeme : Lexeme} {reading : Reading}
      (written : operand.WrittenAs interner lexeme reading) :
      WrittenAs interner ⟨operand, .absent⟩ [⟨.blank, [' ']⟩, lexeme] [reading]
  | pair {first second : Operand} {lexeme other : Lexeme} {reading further : Reading}
      (written : first.WrittenAs interner lexeme reading)
      (writtenOther : second.WrittenAs interner other further) :
      WrittenAs interner ⟨first, second⟩
        [⟨.blank, [' ']⟩, lexeme, ⟨.comma, [',']⟩, ⟨.blank, [' ']⟩, other]
        [reading, .comma, further]

namespace Operands.WrittenAs

variable {interner : Interner} {operands : Operands} {lexemes : List Lexeme}
  {readings : List Reading}

theorem render (written : operands.WrittenAs interner lexemes readings) :
    operands.render interner = .ok (String.ofList (lexemes.flatMap Lexeme.text)) := by
  cases written with
  | bare => rfl
  | @one operand lexeme _ written =>
      have present : (Operands.mk operand .absent).present = [operand] := by
        simp [Operands.present, Operands.toList, written.present]
      have text : " " ++ ", ".intercalate [String.ofList lexeme.text] =
          String.ofList (' ' :: (lexeme.text ++ [])) := by
        rw [← String.toList_inj]
        simp
      rw [Operands.render, present, List.mapM_cons, written.render]
      exact congrArg Except.ok text
  | @pair first second lexeme other _ _ written writtenOther =>
      have present : (Operands.mk first second).present = [first, second] := by
        simp [Operands.present, Operands.toList, written.present, writtenOther.present]
      have text : " " ++ ", ".intercalate [String.ofList lexeme.text, String.ofList other.text] =
          String.ofList (' ' :: (lexeme.text ++ ',' :: ' ' :: (other.text ++ []))) := by
        rw [← String.toList_inj]
        simp
      rw [Operands.render, present, List.mapM_cons, List.mapM_cons, written.render,
        writtenOther.render]
      exact congrArg Except.ok text

theorem scanned (written : operands.WrittenAs interner lexemes readings) {head : Lexeme}
    (stands : head.Stands) :
    Scanned.ofText (head.text ++ lexemes.flatMap Lexeme.text) = ⟨head :: lexemes, .none⟩ := by
  have lineEnd : Separated [] := nofun
  have blank (rest : List Char) : Separated (' ' :: rest) := by
    rintro next ⟨rfl⟩
    exact .inl rfl
  have comma (rest : List Char) : Separated (',' :: rest) := by
    rintro next ⟨rfl⟩
    exact .inr rfl
  cases written with
  | bare =>
      rw [List.flatMap_nil, Scanned.ofText_stands stands lineEnd, Scanned.ofText_nil]
  | one written =>
      simp only [List.flatMap_cons, List.flatMap_nil, List.cons_append, List.nil_append]
      rw [Scanned.ofText_stands stands (blank _), Scanned.ofText_blank written.stands lineEnd,
        Scanned.ofText_nil]
  | pair written writtenOther =>
      simp only [List.flatMap_cons, List.flatMap_nil, List.cons_append, List.nil_append]
      rw [Scanned.ofText_stands stands (blank _), Scanned.ofText_blank written.stands (comma _),
        Scanned.ofText_comma, Scanned.ofText_blank writtenOther.stands lineEnd,
        Scanned.ofText_nil]

theorem readAs (written : operands.WrittenAs interner lexemes readings) :
    ReadAs lexemes readings := by
  cases written with
  | bare => exact .done
  | one written =>
      exact .skip rfl (.keep written.stands.kept written.stands.inLine written.read .done)
  | pair written writtenOther =>
      exact .skip rfl (.keep written.stands.kept written.stands.inLine written.read
        (.keep rfl nofun rfl (.skip rfl (.keep writtenOther.stands.kept writtenOther.stands.inLine
          writtenOther.read .done))))

theorem few (written : operands.WrittenAs interner lexemes readings) : readings.length ≤ 3 := by
  cases written <;> simp

theorem noNewline (written : operands.WrittenAs interner lexemes readings) :
    '\n' ∉ lexemes.flatMap Lexeme.text := by
  cases written with
  | bare => nofun
  | one written => simp [written.stands.noNewline]
  | pair written writtenOther =>
      simp [written.stands.noNewline, writtenOther.stands.noNewline]

end Operands.WrittenAs

section Again

variable {interner names : Interner} {first second : Operand} {lexeme other : Lexeme}
  {reading further : Reading} {tokens : List Token}

/-- A row with one operand has one token behind the first, and this is the operand again. -/
theorem Operand.WrittenAs.alone (written : first.WrittenAs interner lexeme reading)
    (represents : List.Forall₂ (Token.Represents names) tokens [reading]) :
    ∃ token place, tokens = [token] ∧ token.operand? = some place ∧
      Operand.Alike interner names first place := by
  obtain ⟨token, _, representsFirst, ⟨⟩, rfl⟩ := List.forall₂_cons_right_iff.mp represents
  obtain ⟨place, stands, alike⟩ := written.again names token representsFirst
  exact ⟨token, place, rfl, stands, alike⟩

/-- A row with two operands has a comma between their tokens. -/
theorem Operand.WrittenAs.paired (written : first.WrittenAs interner lexeme reading)
    (writtenOther : second.WrittenAs interner other further)
    (represents : List.Forall₂ (Token.Represents names) tokens [reading, .comma, further]) :
    ∃ token last place lastPlace, tokens = [token, .comma, last] ∧
      token.operand? = some place ∧ last.operand? = some lastPlace ∧
      Operands.Alike interner names ⟨first, second⟩ ⟨place, lastPlace⟩ := by
  obtain ⟨token, _, representsFirst, others, rfl⟩ := List.forall₂_cons_right_iff.mp represents
  obtain ⟨_, _, ⟨⟩, ending, rfl⟩ := List.forall₂_cons_right_iff.mp others
  obtain ⟨last, _, representsLast, ⟨⟩, rfl⟩ := List.forall₂_cons_right_iff.mp ending
  obtain ⟨place, stands, alike⟩ := written.again names token representsFirst
  obtain ⟨lastPlace, standsLast, alikeLast⟩ := writtenOther.again names last representsLast
  exact ⟨token, last, place, lastPlace, rfl, stands, standsLast, alike, alikeLast⟩

end Again

section Phrases

variable {interner : Interner}

/-- The operands of an instruction can be written behind its mnemonic, and their tokens are such
operands again. -/
theorem OperandsWritten.again {kinds : List OperandKind} {operands : List Operand}
    {tokens : List Token} (written : OperandsWritten kinds operands tokens)
    (few : kinds.length ≤ 2) (writable : ∀ token ∈ tokens, token.IsWritable interner) :
    ∃ lexemes readings, (Operands.ofList operands).WrittenAs interner lexemes readings ∧
      ∀ names others, List.Forall₂ (Token.Represents names) others readings →
        ∃ places, OperandsWritten kinds places others ∧
          Operands.Alike interner names (.ofList operands) (.ofList places) := by
  cases written with
  | done =>
      refine ⟨[], [], .bare, ?_⟩
      rintro names others ⟨⟩
      exact ⟨[], .done, ⟨.plain _ rfl, .plain _ rfl⟩⟩
  | more separator stands accepted rest =>
      rw [List.forall_mem_append, List.forall_mem_cons] at writable
      obtain ⟨lexeme, reading, writtenAs⟩ := writable.2.1.operand stands
      cases rest with
      | done =>
          refine ⟨_, _, .one writtenAs, ?_⟩
          intro names others represents
          obtain ⟨token, place, rfl, standsAgain, alike⟩ := writtenAs.alone represents
          rw [alike.kind] at accepted
          exact ⟨[place], .more .absent standsAgain accepted .done, alike, .plain _ rfl⟩
      | more separatorLast standsLast acceptedLast rest =>
          rw [List.forall_mem_append, List.forall_mem_cons] at writable
          obtain ⟨other, further, writtenOther⟩ := writable.2.2.2.1.operand standsLast
          cases rest with
          | more => exact absurd few (by simp)
          | done =>
              refine ⟨_, _, .pair writtenAs writtenOther, ?_⟩
              intro names others represents
              obtain ⟨token, last, place, lastPlace, rfl, standsAgain, standsAgainLast, alike⟩ :=
                writtenAs.paired writtenOther represents
              rw [alike.front.kind] at accepted
              rw [alike.back.kind] at acceptedLast
              exact ⟨[place, lastPlace], .more .absent standsAgain accepted
                (.more .present standsAgainLast acceptedLast .done), alike⟩

/-- The operands of a directive can be written behind its name, and the row is the directive
again. -/
theorem Phrase.Reads.directive_again {before : Interner} {named : Directive} {operands : Operands}
    {taken following : List Token}
    (reads : (Phrase.directive named operands).Reads before taken following)
    (writable : ∀ token ∈ taken, token.IsWritable interner) :
    ∃ lexemes readings, operands.WrittenAs interner lexemes readings ∧
      ∀ names others, List.Forall₂ (Token.Represents names) others readings →
        ∃ places, (Phrase.directive named places).Reads names (.directive named :: others) [] ∧
          Operands.Alike interner names operands places := by
  cases reads with
  | bareDirective =>
      refine ⟨[], [], .bare, ?_⟩
      rintro names others ⟨⟩
      exact ⟨_, .bareDirective named nofun, ⟨.plain _ rfl, .plain _ rfl⟩⟩
  | directive _ stands =>
      rw [List.forall_mem_cons, List.forall_mem_singleton] at writable
      obtain ⟨lexeme, reading, writtenAs⟩ := writable.2.operand stands
      refine ⟨_, _, .one writtenAs, ?_⟩
      intro names others represents
      obtain ⟨token, place, rfl, standsAgain, alike⟩ := writtenAs.alone represents
      exact ⟨_, .directive named standsAgain nofun nofun, alike, .plain _ rfl⟩
  | pairedDirective _ _ stands separator standsLast =>
      rw [List.forall_mem_cons, List.forall_mem_cons, List.forall_mem_append,
        List.forall_mem_singleton] at writable
      obtain ⟨lexeme, reading, writtenAs⟩ := writable.2.1.operand stands
      obtain ⟨other, further, writtenOther⟩ := writable.2.2.2.operand standsLast
      refine ⟨_, _, .pair writtenAs writtenOther, ?_⟩
      intro names others represents
      obtain ⟨token, last, place, lastPlace, rfl, standsAgain, standsAgainLast, alike⟩ :=
        writtenAs.paired writtenOther represents
      exact ⟨_, .pairedDirective named [] standsAgain .present standsAgainLast, alike⟩

end Phrases

/-- A directive that the language does not know has no name of its own. -/
def Line.isRecognised : Line → Bool
  | .directive named _ => decide (named ≠ .unknown)
  | .label _ | .instruction _ => true

/-- A line is written as a row, and the row alone is read as the line. -/
structure Line.WrittenAs (interner : Interner) (line : Line) (row : String) : Prop where
  render : line.render interner = .ok row
  oneRow : '\n' ∉ row.toList
  again : ∃ program names other, (read 1 row).value = .ok (program, names) ∧
    program.toList = [⟨1, other⟩] ∧ Line.Alike interner names line other

/-- A row is a word with operands behind it, and it is read as the phrase of its tokens. -/
theorem row_writtenAs {interner : Interner} {operands : Operands} {lexemes : List Lexeme}
    {readings : List Reading} (written : operands.WrittenAs interner lexemes readings)
    {word : String} {reading : Reading} (stands : Lexeme.Stands ⟨.word, word.toList⟩)
    (wordRead : Reading.of? word.toList = some reading) {line : Line}
    (render : line.render interner = (operands.render interner).map (word ++ ·))
    (again : ∀ names tokens, List.Forall₂ (Token.Represents names) tokens (reading :: readings) →
      ∃ phrase : Phrase, phrase.Reads names tokens [] ∧ phrase.isLine ∧ ∀ after other,
        Extends names after → phrase.Stands after other → Line.Alike interner after line other) :
    ∃ row, line.WrittenAs interner row := by
  have readAs : ReadAs (⟨.word, word.toList⟩ :: lexemes) (reading :: readings) :=
    .keep stands.kept stands.inLine wordRead written.readAs
  have few : (reading :: readings).length ≤ lexemesPerLine :=
    Nat.le_trans (Nat.succ_le_succ written.few) (by decide)
  obtain ⟨tokens, names, lexed, sound, represents⟩ := lex_line (written.scanned stands) readAs few
  obtain ⟨phrase, reads, isLine, alike⟩ := again names tokens represents
  have row : (word ++ String.ofList (lexemes.flatMap Lexeme.text)).toList =
      word.toList ++ lexemes.flatMap Lexeme.text := by
    rw [String.toList_append, String.toList_ofList]
  refine ⟨word ++ String.ofList (lexemes.flatMap Lexeme.text), ?_, ?_, ?_⟩
  · rw [render, written.render]
    rfl
  · rw [row, List.mem_append, not_or]
    exact ⟨stands.noNewline, written.noNewline⟩
  · rw [← row] at lexed
    obtain ⟨program, after, other, parsed, grown, contents, standsAfter⟩ :=
      read_line lexed sound reads isLine
    exact ⟨program, after, other, parsed, contents, alike after other grown standsAfter⟩

section Lines

variable {names after : Interner} {taken following : List Token}

theorem label_writtenAs {name written : Symbol} {text : String}
    (spelled : after.Spells name text) (spelledColon : names.Spells written (text ++ ":"))
    (writable : (Token.identifier written).IsWritable names) :
    ∃ row, Line.WrittenAs after (.label name) row := by
  obtain ⟨reading, represents, sound⟩ := writable
  cases represents with
  | identifier found =>
      obtain rfl := found.unique spelledColon
      have noOperand : Operands.WrittenAs after ⟨.absent, .absent⟩ [] [] := .bare
      apply row_writtenAs noOperand (Reading.stands_name sound) sound
      · rw [Line.render, spelled.resolve]
        exact congrArg Except.ok String.append_empty.symm
      · intro names tokens represents
        obtain ⟨token, _, first, ⟨⟩, rfl⟩ := List.forall₂_cons_right_iff.mp represents
        cases first with
        | identifier again =>
            refine ⟨.label text, .label [] again, rfl, ?_⟩
            rintro last other _ ⟨spelledLast⟩
            exact .label ⟨text, spelled, spelledLast⟩

theorem instruction_writtenAs {content : Instruction}
    (reads : (Phrase.instruction content).Reads names taken following)
    (writable : ∀ token ∈ taken, token.IsWritable after) :
    ∃ row, Line.WrittenAs after (.instruction content) row := by
  obtain ⟨opcode, operands⟩ := content
  cases reads with
  | instruction _ spelled mnemonic written filled =>
      rw [← written.filled] at filled
      obtain rfl := Operands.toList_injective filled
      obtain ⟨lexemes, readings, writtenAs, again⟩ :=
        written.again opcode.arity_le (List.forall_mem_cons.mp writable).2
      apply row_writtenAs writtenAs (Reading.stands_name opcode.reading_mnemonic)
        opcode.reading_mnemonic rfl
      intro names tokens represents
      obtain ⟨token, others, first, rest, rfl⟩ := List.forall₂_cons_right_iff.mp represents
      cases first with
      | identifier spelledAgain =>
          obtain ⟨places, writtenAgain, alike⟩ := again names others rest
          refine ⟨.instruction ⟨opcode, .ofList places⟩, .instruction [] spelledAgain
            opcode.lowercase_mnemonic writtenAgain writtenAgain.filled, rfl, ?_⟩
          rintro last other grown ⟨⟩
          exact .instruction (alike.mono (.refl _) grown)

theorem directive_writtenAs {named : Directive} {operands : Operands}
    (reads : (Phrase.directive named operands).Reads names taken following)
    (writable : ∀ token ∈ taken, token.IsWritable after) (known : named ≠ .unknown) :
    ∃ row, Line.WrittenAs after (.directive named operands) row := by
  obtain ⟨lexemes, readings, written, again⟩ := reads.directive_again writable
  obtain ⟨stands, read⟩ := named.name_written known
  apply row_writtenAs written stands read rfl
  intro names tokens represents
  obtain ⟨token, others, first, rest, rfl⟩ := List.forall₂_cons_right_iff.mp represents
  cases first
  obtain ⟨places, readsAgain, alike⟩ := again names others rest
  refine ⟨.directive named places, readsAgain, rfl, ?_⟩
  rintro last other grown ⟨⟩
  exact .directive (alike.mono (.refl _) grown)

/-- Each recognised line of a program that was read can be written as a row. -/
theorem Phrase.Reads.writtenAs {phrase : Phrase} {line : Line}
    (reads : phrase.Reads names taken following) (stands : phrase.Stands after line)
    (writable : ∀ token ∈ taken, token.IsWritable names) (grown : Extends names after)
    (recognised : line.isRecognised) :
    ∃ row, line.WrittenAs after row := by
  have writableLater : ∀ token ∈ taken, token.IsWritable after :=
    fun token member => (writable token member).mono grown
  cases stands with
  | label spelled =>
      cases reads with
      | label _ spelledColon =>
          exact label_writtenAs spelled spelledColon (writable _ List.mem_cons_self)
  | instruction content => exact instruction_writtenAs reads writableLater
  | directive named operands =>
      exact directive_writtenAs reads writableLater (of_decide_eq_true recognised)

end Lines

end Source

end RegisterMachine
