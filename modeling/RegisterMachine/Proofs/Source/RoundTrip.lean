/-
This file proves that a program that is written down and read again is the same program. Its rows
are numbered, and they are read without their numbers.
-/

import RegisterMachine.Proofs.Layout.Code
import RegisterMachine.Proofs.Source.Rows

namespace RegisterMachine.Source

/-- A text of some rows, each with a line end. -/
def textOfRows (rows : List String) : String :=
  String.join (rows.map (· ++ "\n"))

theorem textOfRows_cons (row : String) (rows : List String) :
    textOfRows (row :: rows) = row ++ "\n" ++ textOfRows rows :=
  String.join_cons

/-- Lines stay alike if they come to stand further down in another source. -/
theorem lines_further {interner first names : Interner} {lines : List Line}
    {back further : List NumberedLine} {distance : Nat}
    (alike : List.Forall₂ (Line.Alike interner first) lines (back.map NumberedLine.content))
    (shifted : List.Forall₂ (NumberedLine.Alike first names distance) back further) :
    List.Forall₂ (Line.Alike interner names) lines (further.map NumberedLine.content) ∧
      further.map NumberedLine.number = (back.map NumberedLine.number).map (distance + ·) := by
  induction shifted generalizing lines with
  | nil =>
      cases alike
      exact ⟨.nil, rfl⟩
  | cons here _ inductionHypothesis =>
      cases alike with
      | cons line others =>
          obtain ⟨same, numbers⟩ := inductionHypothesis others
          refine ⟨.cons (line.trans here.content) same, ?_⟩
          rw [List.map_cons, List.map_cons, List.map_cons, numbers, here.number, Nat.add_comm]

/-- A row before a text adds its line before the lines of the text. -/
theorem Line.WrittenAs.before {interner backNames : Interner} {line : Line} {row text : String}
    {lines : List Line} {back : Program} {backRoom room : Nat}
    (writtenAs : line.WrittenAs interner row)
    (doneBack : (read backRoom text).value = .ok (back, backNames))
    (alikeBack : List.Forall₂ (Line.Alike interner backNames) lines back.contents)
    (enough : back.size + 1 ≤ room) :
    ∃ program names, (read room (row ++ "\n" ++ text)).value = .ok (program, names) ∧
      List.Forall₂ (Line.Alike interner names) (line :: lines) program.contents ∧
      program.toList.map NumberedLine.number =
        1 :: (back.toList.map NumberedLine.number).map (1 + ·) := by
  obtain ⟨front, frontNames, other, done, contents, alike⟩ := writtenAs.again
  have size : front.size = 1 := by rw [front.size_eq, contents]; rfl
  have count := read_lineCount doneBack
  have fitsBack : lineCount text ≤ backRoom := by
    rw [count]
    exact read_room doneBack
  have fits : front.size + lineCount text ≤ room := by
    rw [size, count, Nat.add_comm]
    exact enough
  have whole := read_behind done fitsBack fits
  rw [doneBack] at whole
  generalize (read room (row ++ "\n" ++ text)).value = found at whole
  cases whole with
  | ok behind =>
      obtain ⟨first, second, split, alikeFirst, alikeSecond⟩ := behind.lines
      rw [contents] at alikeFirst
      obtain ⟨line, _, alikeLine, ⟨⟩, rfl⟩ := List.forall₂_cons_left_iff.mp alikeFirst
      rw [List.count_eq_zero_of_not_mem writtenAs.oneRow] at alikeSecond
      obtain ⟨same, shifted⟩ := lines_further alikeBack alikeSecond
      refine ⟨_, _, rfl, ?_, ?_⟩
      · rw [Program.contents, split]
        exact .cons (alike.trans alikeLine.content) same
      · have first : line.number = 1 := alikeLine.number
        rw [split, List.singleton_append, List.map_cons, first, shifted]

/-- Rows are read row by row. -/
theorem read_textOfRows {interner : Interner} {lines : List Line} {rows : List String}
    (written : List.Forall₂ (Line.WrittenAs interner) lines rows) {room : Nat}
    (enough : rows.length ≤ room) :
    ∃ program names, (read room (textOfRows rows)).value = .ok (program, names) ∧
      List.Forall₂ (Line.Alike interner names) lines program.contents ∧
      program.toList.map NumberedLine.number = List.range' 1 rows.length := by
  induction written generalizing room with
  | nil =>
      obtain ⟨program, names, done, contents⟩ := read_empty room
      refine ⟨program, names, done, ?_, ?_⟩
      · rw [Program.contents, contents]
        exact .nil
      · rw [contents]
        rfl
  | @cons line row lines rows writtenAs rest inductionHypothesis =>
      obtain ⟨back, backNames, doneBack, alikeBack, numbers⟩ :=
        inductionHypothesis (Nat.le_refl _)
      have size : back.size = rows.length := by
        rw [back.size_eq, ← List.length_map NumberedLine.number, numbers, List.length_range']
      have room : back.size + 1 ≤ room := by
        rw [size]
        exact enough
      obtain ⟨program, names, done, alike, further⟩ := writtenAs.before doneBack alikeBack room
      refine ⟨program, names, ?_, alike, ?_⟩
      · rw [textOfRows_cons]
        exact done
      · rw [further, numbers, List.map_add_range', List.length_cons, List.range'_succ]

/-- Each line of a program is written as a row that is read as the line. -/
theorem program_writtenAs {capacity : Nat} {source : String} {program : Program}
    {interner : Interner} (done : (read capacity source).value = .ok (program, interner))
    (recognised : ∀ line ∈ program.contents, line.isRecognised) :
    ∃ rows, List.Forall₂ (Line.WrittenAs interner) program.contents rows := by
  obtain ⟨before, names, items, phrased, grown, stands⟩ := read_phrased done
  have writable := lex_isWritable phrased.lexed
  have readings := phrased.split.reads 1
  unfold Program.contents at recognised ⊢
  generalize numbered 1 items = phrases, program.toList = lines at *
  induction stands with
  | nil => exact ⟨[], .nil⟩
  | cons here _ inductionHypothesis =>
      rw [List.forall_mem_cons] at readings
      rw [List.map_cons, List.forall_mem_cons] at recognised
      obtain ⟨taken, following, reads, inside⟩ := readings.1
      obtain ⟨row, written⟩ := reads.writtenAs here.content
        (fun token member => writable token (inside token member)) grown recognised.1
      obtain ⟨rows, others⟩ := inductionHypothesis recognised.2 readings.2
      exact ⟨row :: rows, .cons written others⟩

/-- A row with the number that it is rendered with. -/
def numberedRow (number : Nat) (row : String) : String :=
  String.ofList (Text.paddedDigits 10 3 number) ++ "  " ++ row

/-- A row without the digits that it begins with and the two spaces after them. -/
def unnumbered (row : List Char) : List Char :=
  match row.dropWhile Char.isDigit with
  | ' ' :: ' ' :: rest => rest
  | _ => row

/-- A text without the numbers of its rows. -/
def withoutNumbers (text : String) : String :=
  String.ofList (['\n'].intercalate ((text.toList.splitOn '\n').map unnumbered))

theorem numberedRow_toList (number : Nat) (row : String) :
    (numberedRow number row).toList =
      Text.paddedDigits 10 3 number ++ ' ' :: ' ' :: row.toList := by
  simp [numberedRow]

/-- A text is a row with a number before it. -/
structure IsNumbered (row text : String) : Prop where
  oneRow : '\n' ∉ text.toList
  unnumbered : unnumbered text.toList = row.toList

theorem IsNumbered.numberedRow {row : String} (oneRow : '\n' ∉ row.toList) (number : Nat) :
    IsNumbered row (numberedRow number row) where
  oneRow := by
    rw [numberedRow_toList]
    intro member
    rw [List.mem_append, List.mem_cons, List.mem_cons] at member
    rcases member with digit | space | space | inside
    · exact absurd (Text.isDigit_of_mem_padded 3 number _ digit) (by decide)
    · cases space
    · cases space
    · exact oneRow inside
  unnumbered := by
    rw [Source.unnumbered, numberedRow_toList,
      List.dropWhile_append_of_pos (Text.isDigit_of_mem_padded 3 number)]
    rfl

theorem textOfRows_toList (rows : List String) :
    (textOfRows rows).toList = ['\n'].intercalate (rows.map String.toList ++ [[]]) := by
  induction rows with
  | nil => rfl
  | cons row rows inductionHypothesis =>
      rw [textOfRows_cons, String.toList_append, String.toList_append, inductionHypothesis,
        List.map_cons, List.cons_append, List.intercalate_cons_of_ne_nil (by simp)]
      rfl

/-- The rows of a text are where it is cut, so each of them loses its own number. -/
theorem withoutNumbers_textOfRows {rows texts : List String}
    (numbered : List.Forall₂ IsNumbered rows texts) :
    withoutNumbers (textOfRows texts) = textOfRows rows := by
  have rowByRow : (∀ text ∈ texts, '\n' ∉ text.toList) ∧
      texts.map (unnumbered ∘ String.toList) = rows.map String.toList := by
    induction numbered with
    | nil => exact ⟨nofun, rfl⟩
    | cons here _ inductionHypothesis =>
        obtain ⟨oneRow, same⟩ := inductionHypothesis
        refine ⟨List.forall_mem_cons.mpr ⟨here.oneRow, oneRow⟩, ?_⟩
        rw [List.map_cons, List.map_cons, same, Function.comp_apply, here.unnumbered]
  have cut : ∀ row ∈ texts.map String.toList ++ [[]], '\n' ∉ row := by
    rw [List.forall_mem_append, List.forall_mem_map, List.forall_mem_singleton]
    exact ⟨rowByRow.1, nofun⟩
  have last : unnumbered [] = [] := rfl
  rw [withoutNumbers, textOfRows_toList, List.splitOn_intercalate _ cut (by simp), List.map_append,
    List.map_map, rowByRow.2, List.map_singleton, last, ← textOfRows_toList, String.ofList_toList]

/-- Lines that are written as rows are rendered as these rows with numbers. -/
theorem render_textOfRows {interner : Interner} {program : Program} {rows : List String}
    (written : List.Forall₂ (Line.WrittenAs interner) program.contents rows) :
    ∃ texts, program.render interner = .ok (textOfRows texts) ∧
      List.Forall₂ IsNumbered rows texts := by
  have rendered : ∃ texts, program.toList.mapM (NumberedLine.render interner) =
      .ok (texts.map (· ++ "\n")) ∧ List.Forall₂ IsNumbered rows texts := by
    unfold Program.contents at written
    generalize program.toList = lines at written
    induction lines generalizing rows with
    | nil =>
        cases written
        exact ⟨[], rfl, .nil⟩
    | cons line lines inductionHypothesis =>
        cases written with
        | @cons _ row _ _ here rest =>
            obtain ⟨texts, others, numbered⟩ := inductionHypothesis rest
            refine ⟨numberedRow line.number row :: texts, ?_,
              .cons (.numberedRow here.oneRow line.number) numbered⟩
            rw [List.mapM_cons, others, NumberedLine.render, here.render]
            rfl
  obtain ⟨texts, each, numbered⟩ := rendered
  refine ⟨texts, ?_, numbered⟩
  rw [Program.render, each]
  rfl

/-- A program that was read, rendered and read again without the numbers of its rows is the same
program, with a row of the source for each line. -/
theorem read_render {capacity : Nat} {source : String} {program : Program} {interner : Interner}
    (done : (read capacity source).value = .ok (program, interner))
    (recognised : ∀ line ∈ program.contents, line.isRecognised) :
    ∃ text, program.render interner = .ok text ∧
      ∃ again names, (read capacity (withoutNumbers text)).value = .ok (again, names) ∧
        List.Forall₂ (Line.Alike interner names) program.contents again.contents ∧
        again.toList.map NumberedLine.number = List.range' 1 program.size := by
  obtain ⟨rows, written⟩ := program_writtenAs done recognised
  obtain ⟨texts, rendered, numbered⟩ := render_textOfRows written
  have size : rows.length = program.size := by
    rw [program.size_eq, ← written.length_eq, Program.contents, List.length_map]
  have room : rows.length ≤ capacity := by
    rw [size]
    exact read_room done
  refine ⟨textOfRows texts, rendered, ?_⟩
  rw [withoutNumbers_textOfRows numbered, ← size]
  exact read_textOfRows written room

/-- Lines that share a row of the source have their own rows when they are rendered. -/
theorem read_render_jump :
    let text := "001  again:\n001  mov R1, ';'\n003  .DATA text, \"a; b\"\n003  jmp again\n"
    ∃ program interner,
      (read 4 "again: mov r1 ';'\n\n.DATA text \"a; b\" jmp again ; back").value =
        .ok (program, interner) ∧
      (∀ line ∈ program.contents, line.isRecognised) ∧
      program.render interner = .ok text ∧
      ∃ again names, (read 4 (withoutNumbers text)).value = .ok (again, names) ∧
        List.Forall₂ (Line.Alike interner names) program.contents again.contents ∧
        again.toList.map NumberedLine.number = [1, 2, 3, 4] := by
  intro text
  have accepted :
      (read 4 "again: mov r1 ';'\n\n.DATA text \"a; b\" jmp again ; back").value.toOption.any
      fun found => found.1.size = 4 ∧ (found.1.render found.2).toOption = some text ∧
        found.1.contents.all Line.isRecognised := by
    decide +kernel
  obtain ⟨⟨program, interner⟩, done, checked⟩ := exists_ok accepted
  obtain ⟨size, shown, known⟩ := of_decide_eq_true checked
  have recognised : ∀ line ∈ program.contents, line.isRecognised := List.all_eq_true.mp known
  obtain ⟨rendered, render, again, names, doneAgain, alike, numbers⟩ :=
    read_render done recognised
  rw [render] at shown
  obtain rfl := Option.some.inj shown
  rw [size] at numbers
  exact ⟨program, interner, done, recognised, render, again, names, doneAgain, alike, numbers⟩

end RegisterMachine.Source
