/-
This file separates what the parser finds in tokens from the room that its caller made for lines.
The parser puts the lines of the outline into the program one after the other, and then it stops as
the outline does.
-/

import RegisterMachine.Assembler

namespace RegisterMachine.Source

/-- The line on which the next item stands. -/
def Item.lineAfter (line : Nat) : Item → Nat
  | .lineEnd => line + 1
  | .line _ | .strayRegister _ => line

/-- The lines that an item adds to a program. -/
def Item.lines (line : Nat) : Item → List NumberedLine
  | .line content => [⟨line, content⟩]
  | .lineEnd | .strayRegister _ => []

/-- The lines that the parser finds up to the end, or up to what stops it before. -/
structure Outline where
  lines : List NumberedLine
  interner : Interner
  stop : Option (Abort ParseError)

namespace Outline

/-- An outline with lines before it. -/
def behind (outline : Outline) (lines : List NumberedLine) : Outline :=
  { outline with lines := lines ++ outline.lines }

/-- The outline put into a program, as far as there is room. -/
def fill (outline : Outline) (program : Program) : Except (Abort ParseError) (Program × Interner) :=
  match outline.lines.foldlM Program.push program with
  | .error defect => .error (.defect defect)
  | .ok program =>
      match outline.stop with
      | some reason => .error reason
      | none => .ok (program, outline.interner)

theorem behind_behind (outline : Outline) (first second : List NumberedLine) :
    (outline.behind second).behind first = outline.behind (first ++ second) := by
  simp only [behind, List.append_assoc]

theorem fill_behind (outline : Outline) {lines : List NumberedLine} {program after : Program}
    (pushed : lines.foldlM Program.push program = .ok after) :
    (outline.behind lines).fill program = outline.fill after := by
  rw [fill, behind, List.foldlM_append, pushed]
  rfl

end Outline

/-- What the parser finds from a source line on, however many lines it finds. -/
def outline (interner : Interner) (line : Nat) (stream : TokenStream) : Outline :=
  match _next : stream.peek with
  | none | some .endOfFile => ⟨[], interner, none⟩
  | some token =>
      match _parsed : parseItem interner line token stream with
      | .error reason => ⟨[], interner, some reason⟩
      | .ok ((item, following), rest) =>
          (outline following (item.lineAfter line) rest).behind (item.lines line)
termination_by stream.pending.length
decreasing_by exact parseItemShorter _next _parsed

section Steps

variable {interner following : Interner} {line : Nat} {token : Token} {stream rest : TokenStream}

theorem outline_none (done : stream.peek = none) :
    outline interner line stream = ⟨[], interner, none⟩ := by
  unfold outline
  split <;> simp_all

theorem outline_end (done : stream.peek = some .endOfFile) :
    outline interner line stream = ⟨[], interner, none⟩ := by
  unfold outline
  split <;> simp_all

theorem outline_stop {reason : Abort ParseError} (next : stream.peek = some token)
    (more : token ≠ .endOfFile) (parsed : parseItem interner line token stream = .error reason) :
    outline interner line stream = ⟨[], interner, some reason⟩ := by
  unfold outline
  split
  · simp_all
  · simp_all
  · rename_i other _ same
    obtain rfl : token = other := Option.some.inj (next.symm.trans same)
    split
    · simp_all
    · simp_all

theorem outline_item {item : Item} (next : stream.peek = some token) (more : token ≠ .endOfFile)
    (parsed : parseItem interner line token stream = .ok ((item, following), rest)) :
    outline interner line stream =
      (outline following (item.lineAfter line) rest).behind (item.lines line) := by
  rw [outline]
  split
  · simp_all
  · simp_all
  · rename_i other _ same
    obtain rfl : token = other := Option.some.inj (next.symm.trans same)
    split
    · simp_all
    · simp_all

end Steps

/-- The parser is at the end of the tokens, or something stops it, or it goes on after an item. -/
@[elab_as_elim]
theorem outline_induction {motive : Interner → Nat → TokenStream → Prop} (interner : Interner)
    (line : Nat) (stream : TokenStream)
    (exhausted : ∀ interner line stream, stream.peek = none → motive interner line stream)
    (ended : ∀ interner line stream, stream.peek = some .endOfFile → motive interner line stream)
    (stopped : ∀ interner line stream token reason, stream.peek = some token →
      token ≠ .endOfFile → parseItem interner line token stream = .error reason →
      motive interner line stream)
    (follows : ∀ interner line stream token item following rest, stream.peek = some token →
      token ≠ .endOfFile → parseItem interner line token stream = .ok ((item, following), rest) →
      motive following (item.lineAfter line) rest → motive interner line stream) :
    motive interner line stream := by
  fun_induction outline interner line stream with
  | case1 interner line stream next => exact exhausted interner line stream next
  | case2 interner line stream next => exact ended interner line stream next
  | case3 interner line stream token more next reason parsed =>
      exact stopped interner line stream token reason next more parsed
  | case4 interner line stream token more next item following rest parsed inductionHypothesis =>
      exact follows interner line stream token item following rest next more parsed
        inductionHypothesis

theorem pushed_one {program after : Program} {line : NumberedLine}
    (pushed : program.push line = .ok after) :
    [line].foldlM Program.push program = .ok after := by
  rw [List.foldlM_cons, pushed]
  rfl

/-- The parser fills the program with the outline of its tokens. -/
theorem Parser.run_outline (parser : Parser) :
    parser.run.value = (outline parser.interner parser.line parser.stream).fill parser.program := by
  fun_induction Parser.run parser with
  | case1 stream interner log line program next =>
      dsimp only
      rw [outline_none next]
      rfl
  | case2 stream interner log line program next =>
      dsimp only
      rw [outline_end next]
      rfl
  | case3 stream interner log line program token more next reason parsed =>
      dsimp only
      rw [outline_stop next more parsed]
      rfl
  | case4 stream interner log line program token more next following rest parsed
      inductionHypothesis =>
      rw [inductionHypothesis, outline_item next more parsed]
      rfl
  | case5 stream interner log line program token more next register following rest parsed
      inductionHypothesis =>
      rw [inductionHypothesis, outline_item next more parsed]
      rfl
  | case6 stream interner log line program token more next content following rest parsed defect
      full =>
      dsimp only
      rw [outline_item next more parsed, Outline.fill, Outline.behind, Item.lines,
        List.singleton_append, List.foldlM_cons, full]
      rfl
  | case7 stream interner log line program token more next content following rest parsed extended
      pushed inductionHypothesis =>
      have filled := (outline following line rest).fill_behind (pushed_one pushed)
      rw [inductionHypothesis, outline_item next more parsed]
      exact filled.symm

theorem Program.push_toList {program after : Program} {line : NumberedLine}
    (pushed : program.push line = .ok after) : after.toList = program.toList ++ [line] := by
  unfold push at pushed
  split at pushed
  · cases pushed
    exact Array.toList_push
  · cases pushed

theorem Program.push_ok {program : Program} (line : NumberedLine)
    (room : program.size < program.capacity) :
    ∃ after, program.push line = .ok after ∧ after.toList = program.toList ++ [line] ∧
      after.capacity = program.capacity := by
  refine ⟨_, dif_pos room, ?_, rfl⟩
  exact Array.toList_push

theorem Program.size_eq (program : Program) : program.size = program.toList.length :=
  Array.length_toList.symm

/-- Lines go into a program that has room for them all. -/
theorem Program.pushAll_ok {program : Program} (lines : List NumberedLine)
    (room : program.size + lines.length ≤ program.capacity) :
    ∃ after, lines.foldlM Program.push program = .ok after := by
  induction lines generalizing program with
  | nil => exact ⟨program, rfl⟩
  | cons line lines inductionHypothesis =>
      rw [List.length_cons] at room
      obtain ⟨next, pushed, contents, capacity⟩ := program.push_ok line (by omega)
      have size : next.size = program.size + 1 := by
        rw [next.size_eq, contents, List.length_append, program.size_eq]
        rfl
      have roomLeft : next.size + lines.length ≤ next.capacity := by omega
      obtain ⟨after, others⟩ := inductionHypothesis roomLeft
      refine ⟨after, ?_⟩
      rw [List.foldlM_cons, pushed]
      exact others

theorem Program.push_capacity {program after : Program} {line : NumberedLine}
    (pushed : program.push line = .ok after) : after.capacity = program.capacity := by
  unfold push at pushed
  split at pushed
  · cases pushed
    rfl
  · cases pushed

/-- Lines that went into a program are at its end, and there was room for them. -/
theorem Program.pushAll_contents {program after : Program} {lines : List NumberedLine}
    (pushed : lines.foldlM Program.push program = .ok after) :
    after.toList = program.toList ++ lines ∧ after.capacity = program.capacity := by
  induction lines generalizing program with
  | nil =>
      cases pushed
      exact ⟨(List.append_nil _).symm, rfl⟩
  | cons line lines inductionHypothesis =>
      rw [List.foldlM_cons] at pushed
      obtain ⟨next, first, others⟩ := bindOk pushed
      obtain ⟨contents, capacity⟩ := inductionHypothesis others
      rw [contents, capacity, push_toList first, push_capacity first, List.append_assoc]
      exact ⟨rfl, rfl⟩

theorem Program.length_le_capacity (program : Program) :
    program.toList.length ≤ program.capacity := by
  rw [← program.size_eq]
  exact program.sizeWithinCapacity

/-- An outline that reaches the end makes a program of all its lines. -/
theorem Outline.fill_ok {outline : Outline} {program after : Program} {interner : Interner}
    (filled : outline.fill program = .ok (after, interner)) :
    outline.stop = none ∧ outline.interner = interner ∧
      after.toList = program.toList ++ outline.lines ∧ after.capacity = program.capacity := by
  unfold fill at filled
  split at filled
  · cases filled
  · rename_i full pushed
    split at filled
    · cases filled
    · rename_i reached
      cases filled
      exact ⟨reached, rfl, Program.pushAll_contents pushed⟩

/-- With room for its lines an outline is all that counts. -/
theorem Outline.fill_room {outline : Outline} {capacity : Nat}
    (room : outline.lines.length ≤ capacity) :
    (outline.stop = none → ∃ program,
      outline.fill (.empty capacity) = .ok (program, outline.interner) ∧
      program.toList = outline.lines) ∧
    ∀ reason, outline.stop = some reason → outline.fill (.empty capacity) = .error reason := by
  have space : (Program.empty capacity).size + outline.lines.length ≤
      (Program.empty capacity).capacity := Nat.le_trans (Nat.le_of_eq (Nat.zero_add _)) room
  obtain ⟨program, pushed⟩ := Program.pushAll_ok outline.lines space
  unfold fill
  rw [pushed]
  constructor
  · intro reached
    rw [reached]
    exact ⟨program, rfl, (Program.pushAll_contents pushed).1⟩
  · intro reason stopped
    rw [stopped]

/-- A second stage that succeeds had a first stage that succeeded. -/
theorem andThen_ok {α β ε ζ : Type} {first : Logged (Except ε α)} {failed : ε → ζ}
    {next : α → Logged (Except ζ β)} {result : β}
    (done : (first.andThen failed next).value = .ok result) :
    ∃ value, first.value = .ok value ∧ (next value).value = .ok result := by
  unfold Logged.andThen at done
  cases found : first.value with
  | error reason =>
      rw [found] at done
      cases done
  | ok value =>
      rw [found] at done
      exact ⟨value, rfl, done⟩

/-- The lines of a program that was read are the outline of its tokens. -/
theorem read_outline {capacity : Nat} {source : String} {program : Program} {after : Interner}
    (done : (read capacity source).value = .ok (program, after)) :
    ∃ tokens names, (lex Interner.empty source.toList).value = .ok (tokens, names) ∧
      (outline names 1 (.ofList tokens)).stop = none ∧
      (outline names 1 (.ofList tokens)).interner = after ∧
      program.toList = (outline names 1 (.ofList tokens)).lines := by
  obtain ⟨⟨tokens, names⟩, lexed, parsed⟩ := andThen_ok done
  have filled := mapErrorOk parsed
  rw [parse, Parser.run_outline] at filled
  obtain ⟨reached, known, contents, _⟩ := Outline.fill_ok filled
  exact ⟨tokens, names, lexed, reached, known, contents⟩

/-- There was room for the lines of a program that was read. -/
theorem read_room {capacity : Nat} {source : String} {program : Program} {after : Interner}
    (done : (read capacity source).value = .ok (program, after)) : program.size ≤ capacity := by
  obtain ⟨_, _, parsed⟩ := andThen_ok done
  have filled := mapErrorOk parsed
  rw [parse, Parser.run_outline] at filled
  obtain ⟨_, _, _, room⟩ := Outline.fill_ok filled
  exact Nat.le_trans program.sizeWithinCapacity (Nat.le_of_eq room)

end RegisterMachine.Source
