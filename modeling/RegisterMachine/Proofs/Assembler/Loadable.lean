/-
This file proves that every container that was assembled is read back from its bytes, and that a
machine loads it unless the program has no instructions. The machine is then about to execute the
instruction at which the program begins.
-/

import RegisterMachine.Proofs.Assembler.Emission
import RegisterMachine.Proofs.Layout.Entry
import RegisterMachine.Proofs.Machine.Loading
import RegisterMachine.Proofs.Simulation.Lockstep

namespace RegisterMachine

open Source

/-- A source text that was assembled was read, and its program was emitted. -/
theorem Source.assemble_ok {capacity : Nat} {source : String} {container : Container}
    (assembled : (assemble capacity source).value = .ok container) :
    ∃ program interner, (read capacity source).value = .ok (program, interner) ∧
      (program.emit interner).value = .ok container := by
  obtain ⟨⟨program, interner⟩, parsed, emitted⟩ := andThen_ok assembled
  exact ⟨program, interner, parsed, mapErrorOk emitted⟩

/-- A machine is about to execute the instruction at which a program begins, and the program begins
nowhere else. The code of the container encodes there what the instruction says. -/
structure Machine.Enters (container : Container) (interner : Interner) (program : Program)
    (machine : Machine) : Prop where
  whole : RegisterMachine.Instruction.byteSize ∣ machine.pc.toNat
  inCode : machine.pc.toNat + RegisterMachine.Instruction.byteSize ≤ container.code.length
  begins : ∀ address source, BeginsAt program.contents address source →
    machine.pc.toNat = address
  fetch : ∃ source located statement, BeginsAt program.contents machine.pc.toNat source ∧
    machine.fetch = .ok (located, machine.fetched) ∧
    source.statement? interner program.contents = some statement ∧ located.Encodes statement

theorem Machine.started_enters {container : Container} {interner : Interner} {program : Program}
    (fresh : Machine) (implemented : container.Implements interner program)
    (loadable : container.Loadable) (emittable : program.Emittable interner)
    {source : Source.Instruction}
    (begins : BeginsAt program.contents container.header.entryPoint.toNat source) :
    (fresh.started container).Enters container interner program := by
  have intact := fresh.started_intact loadable
  have entry : (fresh.started container).pc = container.header.entryPoint :=
    UInt32.zero_add container.header.entryPoint
  rw [← entry] at begins
  obtain ⟨index, line, item, position⟩ := begins.instruction
  obtain ⟨located, statement, next, means, encodes⟩ :=
    intact.nextInstruction_implements implemented item position
  refine ⟨⟨index, position⟩, ((intact.nextInstruction_ok located).mp next).1, ?_, ?_⟩
  · intro address other again
    exact (emittable.begins_unique begins again).1
  · refine ⟨source, located, statement, begins, ?_, means, encodes⟩
    rw [fetch_eq, next]

/-- An assembled container is read back from its bytes. A machine refuses it if the program has no
instructions, and otherwise loads it and is about to execute the instruction at which the program
begins. -/
theorem assembled_loadable {capacity : Nat} {source : String} {container : Container}
    (assembled : (assemble capacity source).value = .ok container) :
    ∃ program interner, (read capacity source).value = .ok (program, interner) ∧
      (program.emit interner).value = .ok container ∧
      Container.ofBytes container.toBytes = .ok container ∧
      ∀ fresh : Machine,
        (program.instructions = [] →
          (fresh.load container.toBytes).value = .error (.raised (.invalidBytecode .emptyCode))) ∧
        (program.instructions ≠ [] →
          ∃ loaded, (fresh.load container.toBytes).value = .ok loaded ∧
            loaded.Enters container interner program) := by
  obtain ⟨program, interner, parsed, emitted⟩ := assemble_ok assembled
  have implemented := Program.emit_implements (read_wellKinded parsed) emitted
  have fails := Program.emit_fails (read_wellKinded parsed) (read_known parsed)
  have emittable := (program.faults_eq_nil interner).mp (fails.ok_iff.mp ⟨container, emitted⟩)
  obtain ⟨layout, code, laid, _, same⟩ := Program.emit_ok emitted
  have fit := implemented.fit
  have codeLength := implemented.codeLength
  refine ⟨program, interner, parsed, emitted, ?_, ?_⟩
  · rw [same] at fit ⊢
    have truthful := Container.ofSections_truthful layout.entryPoint fit
    have whole := Container.ofBytes_toBytes truthful []
    rw [List.append_nil] at whole
    exact whole
  · intro fresh
    constructor
    · intro none
      rw [none, List.length_nil, Nat.mul_zero, List.length_eq_zero_iff, same] at codeLength
      have refused : (Container.ofLoadable container.toBytes).value = .error .emptyCode := by
        rw [same]
        exact Container.ofSections_refused layout.entryPoint codeLength
      rw [Machine.load_eq, refused]
    · intro nonempty
      have loadable := Program.emit_loadable implemented emitted nonempty
      obtain ⟨first, begins⟩ := Layout.ofProgram_begins laid nonempty
      refine ⟨fresh.started container, ?_, ?_⟩
      · rw [Machine.load_eq, Container.ofLoadable_toBytes loadable]
      · apply fresh.started_enters implemented loadable emittable
        rw [same]
        exact begins

/-- A program that starts at a label is loaded, and a program of data alone is refused. -/
theorem assembled_loadable_start :
    (∃ container program interner loaded,
      (assemble 10 ".START main\nf: pop r1\nmain: call f\nhalt").value = .ok container ∧
      ((Machine.empty none).load container.toBytes).value = .ok loaded ∧
      loaded.Enters container interner program) ∧
    ∃ container, (assemble 10 ".DATA x 1").value = .ok container ∧
      ((Machine.empty none).load container.toBytes).value =
        .error (.raised (.invalidBytecode .emptyCode)) := by
  have readable :
      (read 10 ".START main\nf: pop r1\nmain: call f\nhalt").value.toOption.any fun parsed =>
        !parsed.1.instructions.isEmpty := by
    decide +kernel
  have accepted :
      (assemble 10 ".START main\nf: pop r1\nmain: call f\nhalt").value.toOption.any
        fun _ => true := by
    decide +kernel
  have readableData : (read 10 ".DATA x 1").value.toOption.any fun parsed =>
      parsed.1.instructions.isEmpty := by
    decide +kernel
  have acceptedData : (assemble 10 ".DATA x 1").value.toOption.any fun _ => true := by
    decide +kernel
  constructor
  · obtain ⟨parsed, found, filled⟩ := exists_ok readable
    obtain ⟨container, assembled, _⟩ := exists_ok accepted
    obtain ⟨program, interner, same, _, _, loads⟩ := assembled_loadable assembled
    rw [found] at same
    rw [Except.ok.inj same] at filled
    have nonempty : program.instructions ≠ [] := by simpa using filled
    obtain ⟨loaded, load, enters⟩ := (loads (Machine.empty none)).2 nonempty
    exact ⟨container, program, interner, loaded, assembled, load, enters⟩
  · obtain ⟨parsed, found, noCode⟩ := exists_ok readableData
    obtain ⟨container, assembled, _⟩ := exists_ok acceptedData
    obtain ⟨program, interner, same, _, _, loads⟩ := assembled_loadable assembled
    rw [found] at same
    rw [Except.ok.inj same] at noCode
    have empty : program.instructions = [] := by simpa using noCode
    exact ⟨container, assembled, (loads (Machine.empty none)).1 empty⟩

end RegisterMachine
