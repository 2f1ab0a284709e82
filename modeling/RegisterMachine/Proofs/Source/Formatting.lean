/-
This file proves that the formatting of a source does not matter to its lines. Comments can be
deleted, blanks can be added or written in another way, and registers and mnemonics can be written
in another case.
-/

import RegisterMachine.Proofs.Source.Mnemonics

namespace RegisterMachine.Source

open Lexeme (write significant)
open Text (SameLetters)

/-- One way to write some lexemes of a source in another way. What comes before a name tells whether
it is a mnemonic. -/
inductive Edit (source : String) (before : List Lexeme) : List Lexeme → List Char → Prop
  | deleteComment {comment : Lexeme} (kind : comment.kind = .comment) :
      Edit source before [comment] []
  | replaceBlanks {blank : Lexeme} {blanks : List Char} (kind : blank.kind = .blank)
      (nonempty : blanks ≠ []) (each : ∀ character ∈ blanks, Lexeme.isBlank character) :
      Edit source before [blank] blanks
  | insertBlanks {blanks : List Char} (each : ∀ character ∈ blanks, Lexeme.isBlank character) :
      Edit source before [] blanks
  | recaseRegister {lexeme : Lexeme} {register : Register} {written : List Char}
      (reads : Reading.of? lexeme.text = some (.register register))
      (same : SameLetters lexeme.text written) : Edit source before [lexeme] written
  | recaseMnemonic {lexeme : Lexeme} {name : String} {written : List Char}
      (follows : MnemonicFollows source before)
      (reads : Reading.of? lexeme.text = some (.identifier name))
      (same : SameLetters lexeme.text written) : Edit source before [lexeme] written

/-- The second source is the first one with one edit. -/
def Reformats (source other : String) : Prop :=
  ∃ before old new after, Scanned.ofText source.toList = ⟨before ++ (old ++ after), none⟩ ∧
    Edit source before old new ∧ other.toList = write before ++ (new ++ write after)

theorem Lexeme.isWordCharacter_of_isBlank {character : Char} (blank : isBlank character) :
    isWordCharacter character = false := by
  simp [isWordCharacter, blank]

namespace Front

variable {first : Char} {others rest : List Char} {lexeme : Lexeme}

theorem quotedString_kind (found : quotedString others = .lexeme lexeme rest) :
    lexeme.kind = .quotedString := by
  unfold quotedString at found
  split at found <;> cases found
  rfl

theorem quotedChar_kind (found : quotedChar others = .lexeme lexeme rest) :
    lexeme.kind = .quotedChar := by
  unfold quotedChar at found
  split at found
  · cases found
  split_ifs at found
  split at found <;> cases found
  rfl

theorem of_blank (found : of first others = .lexeme lexeme rest) (kind : lexeme.kind = .blank) :
    Lexeme.isBlank first := by
  unfold of at found
  split_ifs at found with blank
  · exact blank
  · cases found
    cases kind
  · cases found
    cases kind
  · cases found
    cases kind
  · cases (quotedString_kind found).symm.trans kind
  · cases (quotedChar_kind found).symm.trans kind
  · cases found
    cases kind

/-- A comment goes on to the end of its line. -/
theorem of_comment (found : of first (others ++ rest) = .lexeme lexeme rest)
    (text : lexeme.text = first :: others) (kind : lexeme.kind = .comment) :
    first ≠ '\n' ∧ ∀ next ∈ rest.head?, next = '\n' := by
  unfold of at found
  split_ifs at found with blank comment
  · cases (run_found found text).1.symm.trans kind
  · refine ⟨?_, fun next begins => ?_⟩
    · rintro rfl
      cases comment
    · simpa using (run_found found text).2.2 next begins
  · cases (congrArg Lexeme.kind (Front.lexeme.inj found).1).trans kind
  · cases (congrArg Lexeme.kind (Front.lexeme.inj found).1).trans kind
  · cases (quotedString_kind found).symm.trans kind
  · cases (quotedChar_kind found).symm.trans kind
  · cases (run_found found text).1.symm.trans kind

end Front

theorem SeparatesAs.of_inLine {first : Char} {rest other : List Char} (inLine : first ≠ '\n')
    (word : ∀ next ∈ other.head?, Lexeme.isWordCharacter next → Lexeme.isWordCharacter first) :
    SeparatesAs (first :: rest) other where
  word next begins isWord := ⟨first, rfl, word next begins isWord⟩
  line ends := absurd (ends first rfl) inLine

/-- A text separates as well with blanks in front. -/
theorem SeparatesAs.blanks {blanks : List Char}
    (each : ∀ character ∈ blanks, Lexeme.isBlank character) (rest : List Char) :
    SeparatesAs rest (blanks ++ rest) where
  word next begins isWord := by
    cases blanks with
    | nil => exact ⟨next, begins, isWord⟩
    | cons first more =>
        obtain rfl := Option.some.inj begins
        rw [Lexeme.isWordCharacter_of_isBlank (each first List.mem_cons_self)] at isWord
        cases isWord
  line ends := by
    rw [List.dropWhile_append_of_pos each]
    exact (SeparatesAs.of_head rfl).line ends

namespace Scanned

variable {text new : List Char} {before old anew after : List Lexeme}

/-- What is written in place of some lexemes is found there. -/
theorem kept_replaced (scanned : ofText text = ⟨before ++ (old ++ after), none⟩)
    (separates : SeparatesAs (write (old ++ after)) (new ++ write after))
    (found : (ofText (new ++ write after)).kept = ⟨significant (anew ++ after), none⟩) :
    (ofText (write before ++ (new ++ write after))).kept =
      ⟨significant (before ++ (anew ++ after)), none⟩ := by
  rw [(ofText_cuts scanned).1.kept separates, found, behind, significant, significant, significant,
    List.filter_append before]

section Replacing

variable {lexeme : Lexeme} {blanks written : List Char}

/-- A lexeme of a scanned text is found in front of what is written behind it. -/
theorem ofText_at (scanned : ofText text = ⟨before ++ ([lexeme] ++ after), none⟩) :
    ∃ first others, lexeme.text = first :: others ∧
      write ([lexeme] ++ after) = first :: (others ++ write after) ∧
      Front.of first (others ++ write after) = .lexeme lexeme (write after) ∧
      ofText (write after) = ⟨after, none⟩ := by
  obtain ⟨first, others, shape, found, later⟩ :=
    ofText_cons (List.singleton_append ▸ (ofText_cuts scanned).2)
  refine ⟨first, others, shape, ?_, found, later⟩
  rw [List.singleton_append, Lexeme.write_cons, shape, List.cons_append]

theorem kept_deleteComment (scanned : ofText text = ⟨before ++ ([lexeme] ++ after), none⟩)
    (kind : lexeme.kind = .comment) :
    (ofText (write before ++ ([] ++ write after))).kept = (ofText text).kept := by
  obtain ⟨first, others, shape, whole, found, later⟩ := ofText_at scanned
  obtain ⟨inLine, ends⟩ := Front.of_comment found shape kind
  have separates : SeparatesAs (write ([lexeme] ++ after)) (write after) := by
    rw [whole]
    refine .of_inLine inLine fun next begins word => ?_
    rw [ends next begins] at word
    cases word
  have rest : (ofText ([] ++ write after)).kept = ⟨significant ([] ++ after), none⟩ := by
    rw [List.nil_append, later]
    rfl
  rw [kept_replaced scanned separates rest, scanned, kept]
  simp [significant, Lexeme.isSkipped, kind]

theorem kept_blanksBefore (each : ∀ character ∈ blanks, Lexeme.isBlank character)
    (later : ofText (write after) = ⟨after, none⟩) :
    (ofText (blanks ++ write after)).kept = ⟨significant ([] ++ after), none⟩ := by
  rw [kept_blanks each, later]
  rfl

theorem kept_replaceBlanks (scanned : ofText text = ⟨before ++ ([lexeme] ++ after), none⟩)
    (kind : lexeme.kind = .blank) (nonempty : blanks ≠ [])
    (each : ∀ character ∈ blanks, Lexeme.isBlank character) :
    (ofText (write before ++ (blanks ++ write after))).kept = (ofText text).kept := by
  obtain ⟨first, others, shape, whole, found, later⟩ := ofText_at scanned
  have separates : SeparatesAs (write ([lexeme] ++ after)) (blanks ++ write after) := by
    rw [whole]
    obtain ⟨blank, more, rfl⟩ := List.exists_cons_of_ne_nil nonempty
    refine .of_inLine ?_ fun next begins word => ?_
    · rintro rfl
      cases Front.of_blank found kind
    · rw [← Option.some.inj begins,
        Lexeme.isWordCharacter_of_isBlank (each blank List.mem_cons_self)] at word
      cases word
  rw [kept_replaced scanned separates (kept_blanksBefore each later), scanned, kept]
  simp [significant, Lexeme.isSkipped, kind]

theorem kept_insertBlanks (scanned : ofText text = ⟨before ++ ([] ++ after), none⟩)
    (each : ∀ character ∈ blanks, Lexeme.isBlank character) :
    (ofText (write before ++ (blanks ++ write after))).kept = (ofText text).kept := by
  rw [kept_replaced scanned (.blanks each _) (kept_blanksBefore each (ofText_cuts scanned).2),
    scanned, kept]

/-- A word is found in another case. -/
theorem kept_recase (scanned : ofText text = ⟨before ++ ([lexeme] ++ after), none⟩)
    (same : SameLetters lexeme.text written)
    (inside : ∀ character ∈ lexeme.text, Lexeme.isWordCharacter character) :
    lexeme.kind = .word ∧
      (ofText (write before ++ (written ++ write after))).kept =
        ⟨significant (before ++ ([⟨.word, written⟩] ++ after)), none⟩ := by
  obtain ⟨first, others, shape, whole, found, later⟩ := ofText_at scanned
  have insideOther : ∀ character ∈ written, Lexeme.isWordCharacter character := by
    rw [← List.all_eq_true] at inside ⊢
    rw [same.all (by decide), inside]
  obtain ⟨second, more, rfl⟩ : ∃ second more, written = second :: more := by
    apply List.exists_cons_of_ne_nil
    rintro rfl
    rw [shape] at same
    cases same
  rw [shape, List.forall_mem_cons] at inside
  rw [List.forall_mem_cons] at insideOther
  have run := found
  rw [Front.of_word inside.1] at run
  obtain ⟨kind, _, ends⟩ := Front.run_found run shape
  have foundOther : Front.of second (more ++ write after) =
      .lexeme ⟨.word, second :: more⟩ (write after) := by
    rw [Front.of_word insideOther.1, Front.run_ends insideOther.2 ends]
  have separates : SeparatesAs (write ([lexeme] ++ after)) (second :: more ++ write after) := by
    rw [whole]
    refine .of_inLine ?_ fun _ _ _ => inside.1
    rintro rfl
    cases inside.1
  have rest : (ofText (second :: more ++ write after)).kept =
      ⟨significant ([⟨.word, second :: more⟩] ++ after), none⟩ := by
    rw [List.cons_append, ofText_lexeme foundOther, later]
    rfl
  exact ⟨kind, kept_replaced scanned separates rest⟩

end Replacing

end Scanned

theorem Lexer.step_register {lexeme : Lexeme} {written : List Char} {register : Register}
    (word : lexeme.kind = .word) (reads : Reading.of? lexeme.text = some (.register register))
    (readsOther : Reading.of? written = some (.register register)) (lexer : Lexer) :
    lexer.step ⟨.word, written⟩ = lexer.step lexeme := by
  have taken : lexer.take written = lexer.take lexeme.text := by
    unfold take classify
    rw [reads, readsOther]
    rfl
  simp only [step, Lexeme.isSkipped, word, taken]

/-- Lines are alike to themselves where their names are known. -/
theorem lines_alike_self {interner : Interner} {lines : List NumberedLine}
    (known : ∀ line ∈ lines, Known interner line.content.names) :
    List.Forall₂ (NumberedLine.Alike interner interner 0) lines lines := by
  refine List.forall₂_same.mpr fun line member => ⟨rfl, ?_⟩
  have here := known line member
  cases content : line.content with
  | label name =>
      rw [content] at here
      have spelled := (here name List.mem_cons_self).spells
      exact .label ⟨_, spelled, spelled⟩
  | instruction source =>
      rw [content] at here
      exact .instruction (Operands.alike_self here (.refl interner) (.refl interner))
  | directive named operands =>
      rw [content] at here
      exact .directive (Operands.alike_self here (.refl interner) (.refl interner))

/-- A source is read into the same lines as before one edit. -/
theorem Reformats.read_ok {capacity : Nat} {source other : String} {program : Program}
    {interner : Interner} (reformats : Reformats source other)
    (done : (read capacity source).value = .ok (program, interner)) :
    ∃ programOther last, (read capacity other).value = .ok (programOther, last) ∧
      List.Forall₂ (NumberedLine.Alike interner last 0) program.toList programOther.toList := by
  obtain ⟨before, old, new, after, scanned, edit, written⟩ := reformats
  have unchanged (lexed : (lex Interner.empty other.toList).value =
      (lex Interner.empty source.toList).value) :
      ∃ programOther last, (read capacity other).value = .ok (programOther, last) ∧
        List.Forall₂ (NumberedLine.Alike interner last 0) program.toList programOther.toList := by
    refine ⟨program, interner, ?_, lines_alike_self (read_known done)⟩
    rw [read_value, lexed, ← read_value, done]
  have kept : (Scanned.ofText source.toList).kept =
      ⟨significant (before ++ (old ++ after)), none⟩ := by
    rw [scanned]
    rfl
  cases edit with
  | deleteComment kind =>
      apply unchanged
      rw [lex_kept, lex_kept, written, Scanned.kept_deleteComment scanned kind]
  | replaceBlanks kind nonempty each =>
      apply unchanged
      rw [lex_kept, lex_kept, written, Scanned.kept_replaceBlanks scanned kind nonempty each]
  | insertBlanks each =>
      apply unchanged
      rw [lex_kept, lex_kept, written, Scanned.kept_insertBlanks scanned each]
  | recaseRegister reads same =>
      obtain ⟨word, keptOther⟩ := Scanned.kept_recase scanned same (Reading.of?_register_word reads)
      have step := Lexer.step_register word reads
        (Reading.of?_register_sameLetters same reads)
      apply unchanged
      rw [lex_kept, lex_kept, written, keptOther, kept, Lexer.steps_significant,
        Lexer.steps_significant, List.foldlM_append, List.foldlM_append, List.singleton_append,
        List.singleton_append]
      simp only [List.foldlM_cons, step]
  | recaseMnemonic follows reads same =>
      obtain ⟨word, keptOther⟩ :=
        Scanned.kept_recase scanned same (Reading.of?_identifier_word reads)
      rw [← written] at keptOther
      refine read_respelled done kept keptOther follows word rfl reads
        (Reading.of?_identifier_sameLetters same reads) ?_
      rw [(Reading.of?_identifier_iff.mp reads).2.2]
      exact same.lowercase.symm

end RegisterMachine.Source
