/-
This file proves that the parser accepts exactly the tokens that split into the phrases of the
grammar before their end, and that its lines are the labels, instructions and directives among them.
-/

import RegisterMachine.Proofs.Source.Split

namespace RegisterMachine.Source

open Interner (Extends)

/-- The tokens that the parser looks at. -/
def beforeEnd (tokens : List Token) : List Token :=
  tokens.takeWhile (· ≠ .endOfFile)

def fromEnd (tokens : List Token) : List Token :=
  tokens.dropWhile (· ≠ .endOfFile)

theorem beforeEnd_append_fromEnd (tokens : List Token) :
    beforeEnd tokens ++ fromEnd tokens = tokens :=
  List.takeWhile_append_dropWhile

section Ends

variable {front : List Token} (notEnd : ∀ token ∈ front, token ≠ .endOfFile)

include notEnd

theorem beforeEnd_append (rest : List Token) : beforeEnd (front ++ rest) = front ++ beforeEnd rest :=
  List.takeWhile_append_of_pos (by simpa using notEnd)

theorem fromEnd_append (rest : List Token) : fromEnd (front ++ rest) = fromEnd rest :=
  List.dropWhile_append_of_pos (by simpa using notEnd)

theorem beforeEnd_concat : beforeEnd (front ++ [.endOfFile]) = front := by
  rw [beforeEnd_append notEnd]
  exact List.append_nil front

end Ends

/-- The end of the tokens belongs to no phrase. -/
theorem fromEnd_head? (tokens : List Token) :
    (fromEnd tokens).head? = none ∨ (fromEnd tokens).head? = some .endOfFile := by
  cases first : (fromEnd tokens).head? with
  | none => exact .inl rfl
  | some token =>
      have stops := List.head?_dropWhile_not (· ≠ .endOfFile) tokens
      rw [← fromEnd, first] at stops
      simp_all

theorem fromEnd_closes (tokens : List Token) : Closes (fromEnd tokens) := by
  constructor <;> rcases fromEnd_head? tokens with first | first
  · simp [first]
  · simp [first]
  · simp [StartsOperand, first]
  · simp [StartsOperand, first, Token.operand?]

theorem outline_fromEnd (interner : Interner) (line : Nat) (tokens : List Token)
    (position : Nat) : outline interner line ⟨fromEnd tokens, position⟩ = ⟨[], interner, none⟩ := by
  rcases fromEnd_head? tokens with first | first
  · exact outline_none first
  · exact outline_end first

/-- Tokens that can stand inside of a line. -/
structure Token.Inside (token : Token) : Prop where
  notEnd : token ≠ .endOfFile
  notLineEnd : token ≠ .endOfLine

theorem operand?_inside {token : Token} {operand : Operand}
    (stands : token.operand? = some operand) : token.Inside := by
  constructor <;>
  · rintro rfl
    cases stands

theorem OptionalComma.inside {comma : List Token} (separator : OptionalComma comma) :
    ∀ token ∈ comma, token.Inside := by
  cases separator with
  | absent => nofun
  | present =>
      rw [List.forall_mem_singleton]
      exact ⟨nofun, nofun⟩

theorem OperandsWritten.inside {kinds : List OperandKind} {operands : List Operand}
    {tokens : List Token} (written : OperandsWritten kinds operands tokens) :
    ∀ token ∈ tokens, token.Inside := by
  induction written with
  | done => nofun
  | more separator stands _ _ inductionHypothesis =>
      rw [List.forall_mem_append, List.forall_mem_cons]
      exact ⟨separator.inside, operand?_inside stands, inductionHypothesis⟩

/-- A phrase is the end of a line, or it stays inside of a line. -/
theorem Phrase.Reads.inside {interner : Interner} {phrase : Phrase}
    {taken following : List Token} (reads : phrase.Reads interner taken following) :
    phrase = .lineEnd ∧ taken = [.endOfLine] ∨
      phrase ≠ .lineEnd ∧ ∀ token ∈ taken, token.Inside := by
  cases reads with
  | lineEnd => exact .inl ⟨rfl, rfl⟩
  | strayRegister | label | bareDirective =>
      refine .inr ⟨nofun, ?_⟩
      rw [List.forall_mem_singleton]
      exact ⟨nofun, nofun⟩
  | instruction _ spelled mnemonic written filled =>
      refine .inr ⟨nofun, ?_⟩
      rw [List.forall_mem_cons]
      exact ⟨⟨nofun, nofun⟩, written.inside⟩
  | directive named stands noComma noOperand =>
      refine .inr ⟨nofun, ?_⟩
      rw [List.forall_mem_cons, List.forall_mem_singleton]
      exact ⟨⟨nofun, nofun⟩, operand?_inside stands⟩
  | pairedDirective named _ standsFirst separator standsSecond =>
      refine .inr ⟨nofun, ?_⟩
      rw [List.forall_mem_cons, List.forall_mem_cons, List.forall_mem_append,
        List.forall_mem_singleton]
      exact ⟨⟨nofun, nofun⟩, operand?_inside standsFirst, separator.inside,
        operand?_inside standsSecond⟩

theorem Phrase.Reads.notEnd {interner : Interner} {phrase : Phrase}
    {taken following : List Token} (reads : phrase.Reads interner taken following) :
    ∀ token ∈ taken, token ≠ .endOfFile := by
  rcases reads.inside with ⟨_, rfl⟩ | ⟨_, inside⟩
  · simp
  · exact fun token member => (inside token member).notEnd

theorem Phrase.lineAfter_inside {phrase : Phrase} (inside : phrase ≠ .lineEnd) (line : Nat) :
    phrase.lineAfter line = line := by
  cases phrase with
  | lineEnd => exact absurd rfl inside
  | strayRegister | label | instruction | directive => rfl

/-- Phrases end on the line that the line ends among their tokens lead to. -/
theorem Split.lineAfter_eq {interner : Interner} {items : List (Phrase × List Token)}
    {tokens : List Token} (split : Split interner items tokens) (line : Nat) :
    lineAfter line items = line + tokens.count .endOfLine := by
  induction split generalizing line with
  | done => rfl
  | more reads _ inductionHypothesis =>
      rw [lineAfter, List.foldl_cons, ← lineAfter, inductionHypothesis, List.count_append]
      rcases reads.inside with ⟨rfl, rfl⟩ | ⟨other, inside⟩
      · exact Nat.add_assoc line 1 _
      · have none : List.count Token.endOfLine _ = 0 := List.count_eq_zero_of_not_mem
          fun member => (inside _ member).notLineEnd rfl
        rw [none, Nat.zero_add, Phrase.lineAfter_inside other]

/-- A phrase that the parser reads, and what it leaves to the phrases behind it. -/
structure ReadsItem (interner following : Interner) (stream rest : TokenStream) (item : Item)
    (phrase : Phrase) (taken : List Token) : Prop where
  pending : stream.pending = taken ++ rest.pending
  reads : phrase.Reads interner taken (beforeEnd rest.pending)
  found : (item, following) = phrase.item interner
  sound : following.Sound
  grown : Extends interner following
  informed : rest.Informed following
  agree : ∀ token ∈ beforeEnd rest.pending, ∀ name ∈ token.names, ∀ text,
    following.Spells name text → interner.Spells name text

theorem parseItem_readsItem {interner following : Interner} {line : Nat} {token : Token}
    {stream rest : TokenStream} {item : Item} (sound : interner.Sound)
    (informed : stream.Informed interner) (next : stream.peek = some token)
    (parsed : parseItem interner line token stream = .ok ((item, following), rest)) :
    ∃ phrase taken, ReadsItem interner following stream rest item phrase taken := by
  obtain ⟨phrase, taken, reads, pending, found⟩ := parseItem_reads next parsed
  obtain ⟨soundItem, grown⟩ := phrase.item_grown sound
  rw [← found] at soundItem grown
  have known : ∀ other ∈ rest.pending, Known interner other.names := by
    intro other member
    apply informed other
    rw [pending]
    exact List.mem_append_right _ member
  rw [← beforeEnd_append_fromEnd rest.pending] at reads
  refine ⟨phrase, taken, pending, reads.restrict, found, soundItem, grown, ?_, ?_⟩
  · exact fun other member name named => grown.knows (known other member name named)
  · intro other member name named text spelled
    have inside := (List.takeWhile_sublist _).subset member
    exact (grown.spells_iff (known other inside name named)).mpr spelled

/-- If the parser reaches the end, the tokens before it split into phrases. -/
theorem split_of_outline {interner : Interner} {line : Nat} {stream : TokenStream}
    (sound : interner.Sound) (informed : stream.Informed interner)
    (reached : (outline interner line stream).stop = none) :
    ∃ items, Split interner items (beforeEnd stream.pending) := by
  induction interner, line, stream using outline_induction with
  | exhausted interner line stream next =>
      refine ⟨[], ?_⟩
      rw [List.head?_eq_none_iff.mp next]
      exact .done
  | ended interner line stream next =>
      refine ⟨[], ?_⟩
      rw [advance_pending next, beforeEnd, List.takeWhile_cons_of_neg (by simp)]
      exact .done
  | stopped interner line stream token reason next more parsed =>
      rw [outline_stop next more parsed] at reached
      cases reached
  | follows interner line stream token item following rest next more parsed inductionHypothesis =>
      rw [outline_item next more parsed] at reached
      obtain ⟨phrase, taken, here⟩ := parseItem_readsItem sound informed next parsed
      obtain ⟨items, split⟩ := inductionHypothesis here.sound here.informed reached
      refine ⟨(phrase, taken) :: items, ?_⟩
      rw [here.pending, beforeEnd_append here.reads.notEnd]
      exact .more here.reads (split.transfer here.agree)

/-- Tokens that split into phrases have these lines, and the parser reaches their end. -/
theorem Split.outlined_end {interner : Interner} {items : List (Phrase × List Token)}
    {tokens : List Token} (split : Split interner items (beforeEnd tokens))
    (sound : interner.Sound) (line position : Nat) :
    let found := outline interner line ⟨tokens, position⟩
    found.stop = none ∧ Extends interner found.interner ∧
      List.Forall₂ (Phrase.StandsAt found.interner) (numbered line items) found.lines := by
  obtain ⟨lines, later, after, _, grown, stands, found⟩ :=
    split.outlined (.refl interner) sound (fromEnd_closes tokens) line position
  rw [beforeEnd_append_fromEnd, outline_fromEnd] at found
  rw [found]
  refine ⟨rfl, grown, ?_⟩
  change List.Forall₂ _ _ (lines ++ [])
  rw [List.append_nil]
  exact stands

/-- The parser accepts exactly the tokens that split into phrases before their end, if there is room
for the lines among the phrases, and the program is made of these lines. There is one split at
most. -/
theorem parse_accepts {interner : Interner} (built : interner.Built) {tokens : List Token}
    (known : ∀ token ∈ tokens, Known interner token.names) (capacity : Nat) :
    (∀ items others, Split interner items (beforeEnd tokens) →
      Split interner others (beforeEnd tokens) → items = others) ∧
    ((∃ program after, (parse interner capacity tokens).value = .ok (program, after)) ↔
      ∃ items, Split interner items (beforeEnd tokens) ∧ (numbered 1 items).length ≤ capacity) ∧
    ∀ items program after, Split interner items (beforeEnd tokens) →
      (parse interner capacity tokens).value = .ok (program, after) →
      Extends interner after ∧
        List.Forall₂ (Phrase.StandsAt after) (numbered 1 items) program.toList := by
  have sound := built.sound
  have parsed : (parse interner capacity tokens).value =
      (outline interner 1 ⟨tokens, 0⟩).fill (.empty capacity) :=
    Parser.run_outline _
  have contents (items : List (Phrase × List Token)) (program : Program) (after : Interner)
      (split : Split interner items (beforeEnd tokens))
      (done : (parse interner capacity tokens).value = .ok (program, after)) :
      Extends interner after ∧
        List.Forall₂ (Phrase.StandsAt after) (numbered 1 items) program.toList := by
    obtain ⟨_, grown, stands⟩ := split.outlined_end sound 1 0
    rw [parsed] at done
    obtain ⟨_, rfl, lines, _⟩ := Outline.fill_ok done
    rw [lines]
    exact ⟨grown, stands⟩
  refine ⟨fun _ _ split resplit => split.unique sound resplit, ⟨?_, ?_⟩, contents⟩
  · rintro ⟨program, after, done⟩
    have filled := done
    rw [parsed] at filled
    obtain ⟨reached, _, _, room⟩ := Outline.fill_ok filled
    have informed : TokenStream.Informed interner ⟨tokens, 0⟩ := known
    obtain ⟨items, split⟩ := split_of_outline sound informed reached
    refine ⟨items, split, ?_⟩
    rw [(contents items program after split done).2.length_eq]
    exact program.length_le_capacity.trans_eq room
  · rintro ⟨items, split, room⟩
    obtain ⟨reached, _, stands⟩ := split.outlined_end sound 1 0
    rw [stands.length_eq] at room
    obtain ⟨program, filled, _⟩ := (Outline.fill_room room).1 reached
    exact ⟨program, _, parsed.trans filled⟩

/-- A label and an instruction may share a line, a comma may be left out, and nothing counts after
the end. -/
theorem parse_accepts_labelAndMove :
    let names := (Interner.empty.intern "again:").2
    let interner := (names.intern "MOV").2
    let tokens : List Token := [.identifier (Interner.empty.intern "again:").1,
      .identifier (names.intern "MOV").1, .register .r0, .integer 5, .endOfFile, .comma]
    ∃ program after label, (parse interner 2 tokens).value = .ok (program, after) ∧
      after.Spells label "again" ∧
      program.toList = [⟨1, .label label⟩,
        ⟨1, .instruction ⟨.mov, ⟨.register .r0, .integer 5⟩⟩⟩] := by
  intro names interner tokens
  have built : interner.Built := .intern "MOV" (.intern "again:" .empty)
  obtain ⟨soundNames, _, again⟩ := Interner.Sound.empty.intern "again:"
  obtain ⟨_, grown, move⟩ := soundNames.intern "MOV"
  have known : ∀ token ∈ tokens, Known interner token.names := by
    have againKnown := Known.singleton (grown _ _ again).knows
    have moveKnown := Known.singleton move.knows
    simp only [tokens, List.forall_mem_cons]
    exact ⟨againKnown, moveKnown, .nil, .nil, .nil, .nil, nofun⟩
  have label : (Phrase.label "again").Reads interner
      [.identifier (Interner.empty.intern "again:").1]
      [.identifier (names.intern "MOV").1, .register .r0, .integer 5] :=
    .label _ (grown _ _ again)
  have operands : OperandsWritten [.register, .source] [.register .r0, .integer 5]
      [.register .r0, .integer 5] :=
    .more .absent rfl rfl (.more .absent rfl rfl .done)
  have instruction : (Phrase.instruction ⟨.mov, ⟨.register .r0, .integer 5⟩⟩).Reads interner
      [.identifier (names.intern "MOV").1, .register .r0, .integer 5] [] :=
    .instruction [] move (by decide +kernel) operands rfl
  have split : Split interner _ (beforeEnd tokens) := .more label (.more instruction .done)
  obtain ⟨_, accepted, contents⟩ := parse_accepts built known 2
  obtain ⟨program, after, parsed⟩ := accepted.mpr ⟨_, split, Nat.le_refl _⟩
  have lines := (contents _ program after split parsed).2
  change List.Forall₂ (Phrase.StandsAt after) [(1, .label "again"), (1, .instruction _)]
    program.toList at lines
  obtain ⟨⟨_, content⟩, _, ⟨rfl, labelled⟩, others, written⟩ := List.forall₂_cons_left_iff.mp lines
  obtain ⟨⟨_, moving⟩, _, ⟨rfl, moves⟩, none, rest⟩ := List.forall₂_cons_left_iff.mp others
  change Phrase.Stands after (.label "again") content at labelled
  change Phrase.Stands after (.instruction _) moving at moves
  cases labelled with
  | label spelled =>
      cases moves
      refine ⟨program, after, _, parsed, spelled, ?_⟩
      rw [written, rest, List.forall₂_nil_left_iff.mp none]

end RegisterMachine.Source
