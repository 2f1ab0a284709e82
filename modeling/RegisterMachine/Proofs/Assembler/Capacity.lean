/-
This file proves that assembling ends in a defect only if a source has more lines than there is
room for. Every symbol that the later stages look up has a text, because the program that they work
on was read, and the counts and addresses of a source below two gibibytes fit into words.
-/

import RegisterMachine.Proofs.Assembler.Emission
import RegisterMachine.Proofs.Layout.Extent
import RegisterMachine.Proofs.Source.Boundary
import RegisterMachine.Proofs.Source.Reporting

namespace RegisterMachine

open Source

theorem FailsFirst.reports {α : Type} {faults : List EmitError}
    {computation : Except (Abort EmitError) α} (fails : FailsFirst faults computation) :
    Reports computation := by
  cases fails with
  | raised error rest => exact .raised error
  | done value => exact .ok value

namespace Source

section Rendering

variable {interner : Interner}

/-- A list of items is gone through to its end if each of them has a result. -/
theorem mapM_total {α β ε : Type} {change : α → Except ε β} {items : List α}
    (each : ∀ item ∈ items, ∃ value, change item = .ok value) :
    ∃ values, items.mapM change = .ok values := by
  induction items with
  | nil => exact ⟨[], rfl⟩
  | cons item rest inductionHypothesis =>
      rw [List.forall_mem_cons] at each
      obtain ⟨⟨value, first⟩, others⟩ := each
      obtain ⟨values, later⟩ := inductionHypothesis others
      refine ⟨value :: values, ?_⟩
      rw [List.mapM_cons, first, later]
      rfl

theorem Operand.render_ok {operand : Operand} (known : Known interner operand.names) :
    ∃ text, operand.render interner = .ok text := by
  cases operand with
  | string name | symbol name =>
      rw [render, Interner.resolve_textOf (known name List.mem_cons_self)]
      exact ⟨_, rfl⟩
  | register | integer | char | absent => exact ⟨_, rfl⟩

theorem Operands.render_ok {operands : Operands} (known : Known interner operands.names) :
    ∃ text, operands.render interner = .ok text := by
  have each : ∀ operand ∈ operands.present, ∃ text, operand.render interner = .ok text :=
    fun operand member => Operand.render_ok (known.operand operand (List.mem_of_mem_filter member))
  obtain ⟨texts, rendered⟩ := mapM_total each
  rw [render, rendered, okBind]
  split
  · exact ⟨_, rfl⟩
  · exact ⟨_, rfl⟩

theorem Line.render_ok {line : Line} (known : Known interner line.names) :
    ∃ text, line.render interner = .ok text := by
  cases line with
  | label name =>
      rw [render, Interner.resolve_textOf (known name List.mem_cons_self)]
      exact ⟨_, rfl⟩
  | instruction content =>
      obtain ⟨text, rendered⟩ := Operands.render_ok known
      rw [render, rendered]
      exact ⟨_, rfl⟩
  | directive named operands =>
      obtain ⟨text, rendered⟩ := Operands.render_ok known
      rw [render, rendered]
      exact ⟨_, rfl⟩

/-- A program whose symbols have texts is rendered. -/
theorem Program.render_ok {program : Program}
    (known : ∀ line ∈ program.toList, Known interner line.content.names) :
    ∃ text, program.render interner = .ok text := by
  have each : ∀ line ∈ program.toList, ∃ row, line.render interner = .ok row := by
    intro line member
    obtain ⟨text, rendered⟩ := Line.render_ok (known line member)
    rw [NumberedLine.render, rendered]
    exact ⟨_, rfl⟩
  obtain ⟨rows, rendered⟩ := mapM_total each
  rw [render, rendered]
  exact ⟨_, rfl⟩

end Rendering

/-- A container is emitted for the program that was read, or the first error counts. -/
theorem assemble_value (capacity : Nat) (source : String) :
    (assemble capacity source).value =
      match (read capacity source).value with
      | .error reason => .error reason
      | .ok (program, interner) =>
          (program.emit interner).value.mapError (Abort.map .emit) := by
  unfold assemble Logged.andThen
  cases (read capacity source).value with
  | error reason => rfl
  | ok found => rfl

/-- How assembling a source ends: as reading it does if no program is read, and otherwise with the
first fault of the program or with a container. -/
inductive AssemblyEnds (capacity : Nat) (source : String) :
    Except (Abort AssemblyError) Container → Prop
  | unread (reason : Abort AssemblyError) (reading : ReadEnds capacity source (.error reason)) :
      AssemblyEnds capacity source (.error reason)
  | faulty (program : Program) (interner : Interner) (error : EmitError)
      (reading : ReadEnds capacity source (.ok (program, interner)))
      (first : (program.faults interner).head? = some error) :
      AssemblyEnds capacity source (.error (.raised (.emit error)))
  | emitted (program : Program) (interner : Interner) (container : Container)
      (reading : ReadEnds capacity source (.ok (program, interner)))
      (emittable : program.Emittable interner) :
      AssemblyEnds capacity source (.ok container)

/-- Assembling a source ends in one of the listed ways. -/
theorem assemble_ends (capacity : Nat) (source : String) :
    AssemblyEnds capacity source (assemble capacity source).value := by
  have reading := read_ends capacity source
  rw [assemble_value]
  cases parsed : (read capacity source).value with
  | error reason =>
      rw [parsed] at reading
      exact .unread reason reading
  | ok found =>
      obtain ⟨program, interner⟩ := found
      rw [parsed] at reading
      have fails := Program.emit_fails (read_wellKinded parsed) (read_known parsed)
      dsimp only
      cases emitted : (program.emit interner).value with
      | ok container =>
          have emittable := (program.faults_eq_nil interner).mp (fails.ok_iff.mp ⟨_, emitted⟩)
          exact .emitted program interner container reading emittable
      | error reason =>
          obtain ⟨error, rfl, first⟩ := (fails.error_iff reason).mp emitted
          exact .faulty program interner error reading first

/-- What can go wrong in the assembly of a source: only the room for its lines. -/
structure OnlyRoomFails (capacity : Nat) (source : String) : Prop where
  defect : ∀ cause, (assemble capacity source).value = .error (.defect cause) ↔
    ∃ tokens names line, (lex Interner.empty source.toList).value = .ok (tokens, names) ∧
      (outline names 1 (.ofList tokens)).lines[capacity]? = some line ∧
      cause = .lineCapacityExceeded capacity line.number
  ends : AssemblyEnds capacity source (assemble capacity source).value
  known : ∀ program interner, (read capacity source).value = .ok (program, interner) →
    ∀ line ∈ program.toList, Known interner line.content.names
  emits : ∀ program interner, (read capacity source).value = .ok (program, interner) →
    Reports (program.emit interner).value
  renders : ∀ program interner, (read capacity source).value = .ok (program, interner) →
    ∃ text, program.render interner = .ok text
  quotes : ∀ lexeme, HasQuotes lexeme → ∃ inside, CutsQuotes lexeme inside
  counts : source.utf8ByteSize < 2 ^ 31 → ∀ tokens names,
    (lex Interner.empty source.toList).value = .ok (tokens, names) →
    (outline names 1 (.ofList tokens)).interner.arenaSize < 2 ^ 32 ∧
      (outline names 1 (.ofList tokens)).interner.size < 2 ^ 32 ∧
      ∀ line ∈ (outline names 1 (.ofList tokens)).lines, line.number < 2 ^ 32
  addresses : source.utf8ByteSize < 2 ^ 31 → ∀ program interner,
    (read capacity source).value = .ok (program, interner) →
    ∀ lines following placement, program.toList = lines ++ following →
      lines.foldlM (Placement.addLine interner) .empty = .ok placement →
      Segment.rodata.base.toNat + placement.rodata.size < 2 ^ 32 ∧
        Segment.data.base.toNat + placement.data.size < 2 ^ 32

theorem assemble_onlyRoomFails (capacity : Nat) (source : String) :
    OnlyRoomFails capacity source where
  defect cause := by
    constructor
    · intro failed
      have ends := assemble_ends capacity source
      rw [failed] at ends
      cases ends with
      | unread _ reading =>
          cases reading with
          | full tokens names line lexed first => exact ⟨tokens, names, line, lexed, first, rfl⟩
    · rintro ⟨tokens, names, line, lexed, first, rfl⟩
      have full : (read capacity source).value =
          .error (.defect (.lineCapacityExceeded capacity line.number)) := by
        have filled := Outline.fill_full first
        rw [read_value, lexed]
        exact congrArg (Except.mapError (Abort.map AssemblyError.parse)) filled
      rw [assemble_value, full]
  ends := assemble_ends capacity source
  known _ _ parsed := read_known parsed
  emits _ _ parsed := (Program.emit_fails (read_wellKinded parsed) (read_known parsed)).reports
  renders _ _ parsed := Program.render_ok (read_known parsed)
  quotes _ quoted := quoted.cuts
  counts short tokens names lexed := by
    obtain ⟨_, _, arena, count⟩ := lex_fits lexed
    obtain ⟨arenaAfter, countAfter, numbers, _⟩ := source_fits lexed
    refine ⟨by omega, by omega, ?_⟩
    intro line member
    have bound := numbers line member
    omega
  addresses short program interner parsed lines following placement split placed := by
    have size := read_places parsed split placed
    have rodata : Segment.rodata.base.toNat = 0x80000 := rfl
    have data : Segment.data.base.toNat = 0xC0000 := rfl
    omega

end Source

end RegisterMachine
