/-
This file proves that source text is read line by line. The program of a text behind other lines
is the program of these lines with the program that the text has alone behind it, and an error in
the text is the same error further down.
-/

import RegisterMachine.Proofs.Source.Acceptance
import RegisterMachine.Proofs.Source.Lexing

namespace RegisterMachine

/-- The same error further down in the source. -/
def AssemblyError.shifted (distance : Nat) : AssemblyError → AssemblyError
  | lex error => .lex (error.shifted distance)
  | parse error => .parse (error.shifted distance)
  | emit error => .emit error

namespace Source

open Interner (Extends Sound)

/-- The symbols in the operands of a phrase. -/
def Phrase.names : Phrase → List Symbol
  | lineEnd | strayRegister _ | label _ => []
  | instruction content => content.operands.names
  | directive _ operands => operands.names

section Names

variable {interner first second : Interner}

theorem OperandsWritten.names {kinds : List OperandKind} {operands : List Operand}
    {tokens : List Token} (written : OperandsWritten kinds operands tokens)
    (known : ∀ token ∈ tokens, Known interner token.names) :
    ∀ operand ∈ operands, Known interner operand.names := by
  induction written with
  | done => nofun
  | more separator stands _ _ inductionHypothesis =>
      rw [List.forall_mem_append, List.forall_mem_cons] at known
      rw [List.forall_mem_cons, Token.operand?_names stands]
      exact ⟨known.2.1, inductionHypothesis known.2.2⟩

theorem Operands.names_known {operands : Operands}
    (known : ∀ operand ∈ operands.toList, Known interner operand.names) :
    Known interner operands.names := by
  rw [Operands.toList, List.forall_mem_cons, List.forall_mem_singleton] at known
  exact .append known.1 known.2

/-- A phrase only mentions symbols of its tokens. -/
theorem Phrase.Reads.names {phrase : Phrase} {taken following : List Token}
    (reads : phrase.Reads interner taken following)
    (known : ∀ token ∈ taken, Known first token.names) : Known first phrase.names := by
  cases reads with
  | lineEnd | strayRegister | label => exact .nil
  | instruction _ spelled mnemonic written filled =>
      apply Operands.names_known
      rw [filled, List.forall_mem_append]
      refine ⟨written.names (List.forall_mem_cons.mp known).2, ?_⟩
      intro operand member
      rw [(List.mem_replicate.mp member).2]
      exact .nil
  | bareDirective => exact .append .nil .nil
  | directive named stands =>
      rw [List.forall_mem_cons, List.forall_mem_singleton, ← Token.operand?_names stands] at known
      exact .append known.2 .nil
  | pairedDirective named _ standsFirst separator standsSecond =>
      rw [List.forall_mem_cons, List.forall_mem_cons, List.forall_mem_append,
        List.forall_mem_singleton, ← Token.operand?_names standsFirst,
        ← Token.operand?_names standsSecond] at known
      exact .append known.2.1 known.2.2.2

/-- Each line comes from a phrase that is read from some of the tokens. -/
theorem Split.reads {items : List (Phrase × List Token)} {tokens : List Token}
    (split : Split interner items tokens) (line : Nat) :
    ∀ phrase ∈ numbered line items, ∃ taken following,
      phrase.2.Reads interner taken following ∧ ∀ token ∈ taken, token ∈ tokens := by
  induction split generalizing line with
  | done => simp [numbered]
  | more reads _ inductionHypothesis =>
      intro phrase member
      rw [numbered, List.mem_append, List.mem_ite_nil_right, List.mem_singleton] at member
      rcases member with ⟨_, rfl⟩ | later
      · exact ⟨_, _, reads, fun token => List.mem_append_left _⟩
      · obtain ⟨taken, following, readsLater, inside⟩ := inductionHypothesis _ phrase later
        exact ⟨taken, following, readsLater, fun token member =>
          List.mem_append_right _ (inside token member)⟩

theorem Split.names {items : List (Phrase × List Token)} {tokens : List Token}
    (split : Split interner items tokens) (known : ∀ token ∈ tokens, Known first token.names)
    (line : Nat) : ∀ phrase ∈ numbered line items, Known first phrase.2.names := by
  intro phrase member
  obtain ⟨taken, following, reads, inside⟩ := split.reads line phrase member
  exact reads.names fun token taken => known token (inside token taken)

/-- Interners that share a beginning know its texts by the same symbols. -/
theorem Operand.alike_self {operand : Operand} (known : Known interner operand.names)
    (grown : Extends interner first) (grownOther : Extends interner second) :
    Operand.Alike first second operand operand := by
  have same (name : Symbol) (named : name ∈ operand.names) : SameText first second name name :=
    ⟨_, grown _ _ (known name named).spells, grownOther _ _ (known name named).spells⟩
  cases operand with
  | string text => exact .string (same text List.mem_cons_self)
  | symbol name => exact .symbol (same name List.mem_cons_self)
  | register | integer | char | absent => exact .plain _ rfl

theorem Operands.alike_self {operands : Operands} (known : Known interner operands.names)
    (grown : Extends interner first) (grownOther : Extends interner second) :
    Operands.Alike first second operands operands where
  front := Operand.alike_self
    (fun name named => known name (List.mem_append_left _ named)) grown grownOther
  back := Operand.alike_self
    (fun name named => known name (List.mem_append_right _ named)) grown grownOther

/-- The lines that a phrase stands for in two programs are alike. -/
theorem Phrase.Stands.alike {phrase : Phrase} {line other : Line}
    (stands : phrase.Stands first line) (standsOther : phrase.Stands second other)
    (known : Known interner phrase.names) (grown : Extends interner first)
    (grownOther : Extends interner second) : Line.Alike first second line other := by
  cases stands with
  | label spelled =>
      cases standsOther with
      | label spelledOther => exact .label ⟨_, spelled, spelledOther⟩
  | instruction content =>
      cases standsOther
      exact .instruction (Operands.alike_self known grown grownOther)
  | directive named operands =>
      cases standsOther
      exact .directive (Operands.alike_self known grown grownOther)

theorem lines_alike {phrases : List (Nat × Phrase)} {lines others : List NumberedLine}
    (known : ∀ phrase ∈ phrases, Known interner phrase.2.names)
    (grown : Extends interner first) (grownOther : Extends interner second)
    (stands : List.Forall₂ (Phrase.StandsAt first) phrases lines)
    (standsOther : List.Forall₂ (Phrase.StandsAt second) phrases others) :
    List.Forall₂ (NumberedLine.Alike first second 0) lines others := by
  induction stands generalizing others with
  | nil =>
      cases standsOther
      exact .nil
  | cons here _ inductionHypothesis =>
      rw [List.forall_mem_cons] at known
      cases standsOther with
      | cons hereOther rest =>
          refine .cons ⟨hereOther.number.trans here.number.symm, ?_⟩
            (inductionHypothesis known.2 rest)
          exact here.content.alike hereOther.content known.1 grown grownOther

end Names

/-- A source is read into tokens, and the outline of these fills the program. -/
theorem read_value (capacity : Nat) (source : String) :
    (read capacity source).value =
      match (lex Interner.empty source.toList).value with
      | .error error => .error (.raised (.lex error))
      | .ok (tokens, names) =>
          ((outline names 1 ⟨tokens, 0⟩).fill (.empty capacity)).mapError (Abort.map .parse) := by
  unfold read Logged.andThen
  cases (lex Interner.empty source.toList).value with
  | error error => rfl
  | ok lexed =>
      exact congrArg (Except.mapError (Abort.map AssemblyError.parse)) (Parser.run_outline _)

/-- With room for the lines of its outline a source is read. -/
theorem read_of_outline {capacity : Nat} {source : String} {tokens : List Token} {names : Interner}
    (lexed : (lex Interner.empty source.toList).value = .ok (tokens, names))
    (reached : (outline names 1 ⟨tokens, 0⟩).stop = none)
    (room : (outline names 1 ⟨tokens, 0⟩).lines.length ≤ capacity) :
    ∃ program, (read capacity source).value =
        .ok (program, (outline names 1 ⟨tokens, 0⟩).interner) ∧
      program.toList = (outline names 1 ⟨tokens, 0⟩).lines := by
  obtain ⟨program, filled, contents⟩ := (Outline.fill_room room).1 reached
  refine ⟨program, ?_, contents⟩
  rw [read_value, lexed]
  dsimp only
  rw [filled]
  rfl

/-- The number of lines that the parser finds in a source, whatever the room for them. -/
def lineCount (source : String) : Nat :=
  match (lex Interner.empty source.toList).value with
  | .error _ => 0
  | .ok (tokens, names) => (outline names 1 ⟨tokens, 0⟩).lines.length

theorem read_lineCount {capacity : Nat} {source : String} {program : Program}
    {interner : Interner} (done : (read capacity source).value = .ok (program, interner)) :
    lineCount source = program.size := by
  obtain ⟨tokens, names, lexed, _, _, contents⟩ := read_outline done
  unfold lineCount
  rw [lexed, program.size_eq, contents]
  rfl

/-- No text is a program without lines. -/
theorem read_empty (room : Nat) :
    ∃ program names, (read room "").value = .ok (program, names) ∧ program.toList = [] := by
  have lexed : (lex Interner.empty "".toList).value = .ok ([.endOfFile], Interner.empty) := by
    rw [lex_value, String.toList_empty, Scanned.ofText_nil]
    rfl
  have ended : outline Interner.empty 1 ⟨[.endOfFile], 0⟩ = ⟨[], Interner.empty, none⟩ :=
    outline_end rfl
  refine ⟨.empty room, Interner.empty, ?_, rfl⟩
  rw [read_value, lexed]
  dsimp only
  rw [ended]
  rfl

/-- The phrases of a source that was read. -/
structure Phrased (source : String) (before : List Token) (names : Interner)
    (items : List (Phrase × List Token)) : Prop where
  lexed : (lex Interner.empty source.toList).value = .ok (before ++ [.endOfFile], names)
  split : Split names items before
  known : ∀ token ∈ before, Known names token.names
  lineEnds : before.count .endOfLine = source.toList.count '\n'

theorem read_phrased {capacity : Nat} {source : String} {program : Program} {after : Interner}
    (done : (read capacity source).value = .ok (program, after)) :
    ∃ before names items, Phrased source before names items ∧ Extends names after ∧
      List.Forall₂ (Phrase.StandsAt after) (numbered 1 items) program.toList := by
  obtain ⟨tokens, names, lexed, reached, rfl, contents⟩ := read_outline done
  obtain ⟨_, lexer, behind, _, rfl, rfl⟩ := lex_behind lexed
  have known := (lex_known lexed).2
  have informed : TokenStream.Informed lexer.interner
      (.ofList (lexer.tokens.toList ++ [.endOfFile])) := known
  have before := beforeEnd_concat behind.notEnd
  obtain ⟨items, split⟩ := split_of_outline behind.sound informed reached
  obtain ⟨_, grown, stands⟩ := split.outlined_end behind.sound 1 0
  change Split lexer.interner items (beforeEnd (lexer.tokens.toList ++ [.endOfFile])) at split
  rw [contents]
  rw [before] at split
  refine ⟨lexer.tokens.toList, lexer.interner, items, ⟨lexed, split, ?_, behind.lineEnds⟩,
    grown, stands⟩
  exact fun token member => known token (List.mem_append_left _ member)

/-- The outline of a text behind the phrases of other lines is that of these lines, and then the
outline that the text has alone, further down. -/
theorem outline_behind {source : String} {before : List Token} {names : Interner}
    {items : List (Phrase × List Token)} (phrased : Phrased source before names items)
    {tokens whole : List Token} {namesAlone namesWhole : Interner}
    (lexed : LexedBehind before names (tokens, namesAlone) (whole, namesWhole)) :
    let alone := outline namesAlone 1 ⟨tokens, 0⟩
    let both := outline namesWhole 1 ⟨whole, 0⟩
    ∃ front back, both.lines = front ++ back ∧ Extends names both.interner ∧
      List.Forall₂ (Phrase.StandsAt both.interner) (numbered 1 items) front ∧
      List.Forall₂ (NumberedLine.Alike alone.interner both.interner
        (1 + source.toList.count '\n')) alone.lines back ∧
      Option.Rel (ParseError.Shifts (1 + source.toList.count '\n')) alone.stop both.stop := by
  obtain ⟨sound, soundWhole, grown, back, rfl, alike⟩ := lexed
  have closes : Closes (.endOfLine :: back) := ⟨nofun, nofun⟩
  obtain ⟨front, later, after, soundLater, grownLater, stands, found⟩ :=
    phrased.split.outlined grown soundWhole closes 1 0
  have line : lineAfter 1 items = 1 + source.toList.count '\n' := by
    rw [phrased.split.lineAfter_eq, phrased.lineEnds]
  have lineEnd : outline later (1 + source.toList.count '\n') ⟨.endOfLine :: back, after⟩ =
      outline later (1 + (1 + source.toList.count '\n')) ⟨back, after + 1⟩ := by
    rw [Nat.add_comm 1 (1 + _)]
    exact (Phrase.Reads.lineEnd back).outlined _ after
  rw [line, lineEnd] at found
  have left : TokenStream.Alike namesAlone later ⟨tokens, 0⟩ ⟨back, after + 1⟩ :=
    TokenStream.Alike.mono alike (.refl namesAlone) grownLater
  obtain ⟨lines, stop⟩ := outline_alike sound soundLater left 1 (1 + source.toList.count '\n')
  have grownLast := outline_grown soundLater (1 + (1 + source.toList.count '\n'))
    ⟨back, after + 1⟩
  intro alone both
  have whole : both = (outline later (1 + (1 + source.toList.count '\n'))
      ⟨back, after + 1⟩).behind front := found
  rw [whole]
  refine ⟨front, _, rfl, grown.trans (grownLater.trans grownLast), ?_, lines, stop⟩
  exact stands.imp fun _ _ stands => stands.mono grownLast

/-- What the program of a text behind other lines has in common with the program of these lines and
the program that the text has alone. -/
structure ReadBehind (front : Program) (names : Interner) (distance : Nat)
    (alone whole : Program × Interner) : Prop where
  lines : ∃ first second, whole.1.toList = first ++ second ∧
    List.Forall₂ (NumberedLine.Alike names whole.2 0) front.toList first ∧
    List.Forall₂ (NumberedLine.Alike alone.2 whole.2 distance) alone.1.toList second

/-- An outline behind the lines of a program fills another program that is behind it. -/
theorem fill_behind {alone both : Outline} {frontProgram : Program} {names : Interner}
    {distance backCapacity capacity : Nat} {front back : List NumberedLine}
    (lines : both.lines = front ++ back)
    (first : List.Forall₂ (NumberedLine.Alike names both.interner 0) frontProgram.toList front)
    (second : List.Forall₂ (NumberedLine.Alike alone.interner both.interner distance)
      alone.lines back)
    (stop : Option.Rel (ParseError.Shifts distance) alone.stop both.stop)
    (backRoom : alone.lines.length ≤ backCapacity)
    (room : frontProgram.size + alone.lines.length ≤ capacity) :
    Corresponds (ReadBehind frontProgram names distance) (ParseError.Shifts distance)
      (alone.fill (.empty backCapacity)) (both.fill (.empty capacity)) := by
  have wholeRoom : both.lines.length ≤ capacity := by
    rw [lines, List.length_append, ← first.length_eq, ← second.length_eq, ← frontProgram.size_eq]
    exact room
  obtain ⟨reached, stopped⟩ := Outline.fill_room backRoom
  obtain ⟨reachedWhole, stoppedWhole⟩ := Outline.fill_room wholeRoom
  generalize ending : alone.stop = reason, endingWhole : both.stop = reasonWhole at stop
  cases stop with
  | none =>
      obtain ⟨program, filled, contents⟩ := reached ending
      obtain ⟨whole, filledWhole, contentsWhole⟩ := reachedWhole endingWhole
      rw [filled, filledWhole]
      refine .ok ⟨front, back, contentsWhole.trans lines, first, ?_⟩
      rw [contents]
      exact second
  | some shifts =>
      rw [stopped _ ending, stoppedWhole _ endingWhole]
      exact .error shifts

/-- A text behind the lines of a program is read as it is read alone. -/
theorem read_behind {frontCapacity backCapacity capacity : Nat} {front back : String}
    {frontProgram : Program} {frontNames : Interner}
    (done : (read frontCapacity front).value = .ok (frontProgram, frontNames))
    (backRoom : lineCount back ≤ backCapacity)
    (room : frontProgram.size + lineCount back ≤ capacity) :
    Corresponds (ReadBehind frontProgram frontNames (1 + front.toList.count '\n'))
      (fun reason other =>
        other = reason.map (AssemblyError.shifted (1 + front.toList.count '\n')))
      (read backCapacity back).value (read capacity (front ++ "\n" ++ back)).value := by
  obtain ⟨before, names, items, phrased, grown, stands⟩ := read_phrased done
  have together : (front ++ "\n" ++ back).toList = front.toList ++ '\n' :: back.toList := by
    simp
  have lexed := lex_append phrased.lexed back.toList
  rw [read_value, read_value, together]
  unfold lineCount at backRoom room
  generalize (lex Interner.empty back.toList).value = alone at lexed backRoom room
  generalize (lex Interner.empty (front.toList ++ '\n' :: back.toList)).value = whole at lexed
  cases lexed with
  | error shifts =>
      apply Corresponds.error
      rw [shifts]
      rfl
  | @ok alone whole lexed =>
      obtain ⟨tokens, namesAlone⟩ := alone
      obtain ⟨tokensWhole, namesWhole⟩ := whole
      obtain ⟨first, second, lines, grownWhole, standsWhole, alike, stop⟩ :=
        outline_behind phrased lexed
      have firstAlike := lines_alike (phrased.split.names phrased.known 1) grown grownWhole stands
        standsWhole
      refine (fill_behind lines firstAlike alike stop backRoom room).mapError ?_
      rintro reason _ rfl
      cases reason <;> rfl

/-- Source text is read line by line: a text behind the lines of a program is read if it is read
alone, its lines come behind those of the program, and its errors are the same further down. -/
theorem read_append {frontCapacity backCapacity capacity : Nat} {front back : String}
    {frontProgram : Program} {frontNames : Interner}
    (done : (read frontCapacity front).value = .ok (frontProgram, frontNames))
    (backRoom : lineCount back ≤ backCapacity)
    (room : frontProgram.size + lineCount back ≤ capacity) :
    let distance := 1 + front.toList.count '\n'
    let alone := (read backCapacity back).value
    let whole := (read capacity (front ++ "\n" ++ back)).value
    ((∃ program names, whole = .ok (program, names)) ↔
      ∃ program names, alone = .ok (program, names)) ∧
    (∀ backProgram backNames program names, alone = .ok (backProgram, backNames) →
      whole = .ok (program, names) →
      ∃ first second, program.toList = first ++ second ∧
        List.Forall₂ (NumberedLine.Alike frontNames names 0) frontProgram.toList first ∧
        List.Forall₂ (NumberedLine.Alike backNames names distance) backProgram.toList second) ∧
    ∀ error, alone = .error (.raised error) →
      whole = .error (.raised (error.shifted distance)) := by
  intro distance alone whole
  have behind : Corresponds (ReadBehind frontProgram frontNames distance) _ alone whole :=
    read_behind done backRoom room
  generalize alone = alone at behind ⊢
  generalize whole = whole at behind ⊢
  cases behind with
  | @ok alone whole found =>
      refine ⟨⟨fun _ => ⟨_, _, rfl⟩, fun _ => ⟨_, _, rfl⟩⟩, ?_, nofun⟩
      rintro backProgram backNames program names ⟨⟩ ⟨⟩
      exact found.lines
  | error shifts =>
      refine ⟨⟨nofun, nofun⟩, nofun, ?_⟩
      rintro error ⟨⟩
      rw [shifts]
      rfl

/-- A jump is read behind the label on the line before it, and so is the error of a jump that lacks
its target. -/
theorem read_append_jump :
    ∃ frontProgram frontNames backProgram backNames program names first second,
      (read 1 "again:").value = .ok (frontProgram, frontNames) ∧
      (read 1 "jmp again").value = .ok (backProgram, backNames) ∧
      (read 2 ("again:" ++ "\n" ++ "jmp again")).value = .ok (program, names) ∧
      program.toList = first ++ second ∧ first ≠ [] ∧ second ≠ [] ∧
      List.Forall₂ (NumberedLine.Alike frontNames names 0) frontProgram.toList first ∧
      List.Forall₂ (NumberedLine.Alike backNames names 1) backProgram.toList second ∧
      (read 1 ("again:" ++ "\n" ++ "jmp ,")).value =
        .error (.raised (.parse (.expectedOperand 2 "jmp" "end of file"))) := by
  have accepted : (read 1 "again:").value.toOption.any (fun found => found.1.size = 1) := by
    decide +kernel
  have acceptedBack : (read 1 "jmp again").value.toOption.any
      (fun found => found.1.size = 1) := by
    decide +kernel
  obtain ⟨⟨frontProgram, frontNames⟩, done, size⟩ := exists_ok accepted
  obtain ⟨⟨backProgram, backNames⟩, doneBack, sizeBack⟩ := exists_ok acceptedBack
  have size : frontProgram.size = 1 := of_decide_eq_true size
  have sizeBack : backProgram.size = 1 := of_decide_eq_true sizeBack
  have count : lineCount "jmp again" = 1 := by decide +kernel
  have countFailed : lineCount "jmp ," = 0 := by decide +kernel
  have failed : (read 0 "jmp ,").value =
      .error (.raised (.parse (.expectedOperand 1 "jmp" "end of file"))) := by
    have checked : (match (read 0 "jmp ,").value with
        | .error reason =>
            decide (reason = .raised (.parse (.expectedOperand 1 "jmp" "end of file")))
        | .ok _ => false) = true := by
      decide +kernel
    split at checked
    · rename_i found
      rw [found, of_decide_eq_true checked]
    · cases checked
  have room : frontProgram.size + lineCount "jmp again" ≤ 2 := by rw [size, count]
  have roomFailed : frontProgram.size + lineCount "jmp ," ≤ 1 := by rw [size, countFailed]
  obtain ⟨succeeds, lines, _⟩ := read_append done count.le room
  obtain ⟨_, _, fails⟩ := read_append done countFailed.le roomFailed
  obtain ⟨program, names, whole⟩ := succeeds.mpr ⟨backProgram, backNames, doneBack⟩
  obtain ⟨first, second, contents, alike, behind⟩ :=
    lines backProgram backNames program names doneBack whole
  have frontLines := alike.length_eq
  have backLines := behind.length_eq
  rw [← Program.size_eq, size] at frontLines
  rw [← Program.size_eq, sizeBack] at backLines
  refine ⟨frontProgram, frontNames, backProgram, backNames, program, names, first, second, done,
    doneBack, whole, contents, ?_, ?_, alike, behind, fails _ failed⟩
  · exact List.length_pos_iff.mp (by omega)
  · exact List.length_pos_iff.mp (by omega)

end Source

end RegisterMachine
