/-
This file proves that the assembler and the machine together implement the source program. A machine
that loaded an assembled program follows it step by step: at each instruction it does what the
statement of that instruction says.
-/

import RegisterMachine.Proofs.Container.Codec
import RegisterMachine.Proofs.Machine.Session
import RegisterMachine.Proofs.Simulation.Lowering

namespace RegisterMachine

open Source

/-- What a container that was emitted is made of. -/
theorem Source.Program.emit_ok {interner : Interner} {program : Program} {container : Container}
    (emitted : (program.emit interner).value = .ok container) :
    ∃ layout code, Layout.ofProgram interner program = .ok layout ∧
      layout.code interner program = .ok code ∧
      container = Container.ofSections ⟨code, layout.rodata.toList, layout.data.toList⟩
        layout.entryPoint := by
  unfold emit at emitted
  cases placed : Layout.ofProgram interner program with
  | error reason =>
      rw [placed] at emitted
      cases emitted
  | ok layout =>
      rw [placed] at emitted
      dsimp only at emitted
      cases encoded : layout.code interner program with
      | error reason =>
          rw [encoded] at emitted
          cases emitted
      | ok code =>
          rw [encoded] at emitted
          exact ⟨layout, code, rfl, encoded, (Except.ok.inj emitted).symm⟩

/-- A container holds the values of a program in the order of their addresses, and one slot of code
for each instruction, which encodes the statement of the instruction. -/
structure Container.Implements (container : Container) (interner : Interner) (program : Program) :
    Prop where
  rodata : container.rodata =
    (constants program.contents).flatMap (Constant.bytes interner)
  data : container.data = program.contents.flatMap (Line.dataBytes interner)
  codeLength : container.code.length =
    RegisterMachine.Instruction.byteSize * program.instructions.length
  fit : container.toSections.Fit
  slots : ∀ index line source, program.instructions[index]? = some (line, source) →
    ∃ located statement,
      Instruction.decode?
        ((container.code.drop (RegisterMachine.Instruction.byteSize * index)).take
          RegisterMachine.Instruction.byteSize) = some (.ok located) ∧
      source.statement? interner program.contents = some statement ∧
      located.Encodes statement

/-- The container of a program implements it. -/
theorem Source.Program.emit_implements {interner : Interner} {program : Program}
    {container : Container}
    (filled : ∀ instruction ∈ program.instructions, instruction.2.WellKinded)
    (emitted : (program.emit interner).value = .ok container) :
    container.Implements interner program := by
  obtain ⟨layout, code, placed, encoded, same⟩ := emit_ok emitted
  obtain ⟨agrees, codeFits, rodataFits, dataFits⟩ := Layout.ofProgram_ok placed
  obtain ⟨codeLength, slots⟩ := Layout.code_slots encoded
  rw [same]
  refine ⟨agrees.constants.rodata, agrees.data, codeLength, ⟨?_, rodataFits, dataFits⟩, ?_⟩
  · have size := program.codeSize_contents
    rw [← agrees.codeLength, ← codeLength] at size
    rw [size] at codeFits
    exact codeFits
  · intro index line source item
    obtain ⟨located, lowered, bytes⟩ := slots index line source item
    obtain ⟨statement, means, encodes⟩ :=
      Layout.instruction_hasStatement agrees (filled _ (List.mem_of_getElem? item)) lowered
    exact ⟨located, statement, Instruction.decode?_encode encodes.complete bytes, means, encodes⟩

theorem Outcome.Matches.unlimited {sink : Sink} {outcome : Outcome} {after : Machine}
    {text : List UInt8} (achieved : outcome.Matches sink (.ok (after, text)))
    (unlimited : sink.limit = none) :
    outcome.result = .ok () ∧ outcome.machine = after ∧ outcome.sink = sink.extended text := by
  obtain ⟨result, machine, written⟩ := achieved
  rw [Sink.write_unlimited unlimited] at result written
  exact ⟨result, machine, written⟩

namespace Machine

/-- The machines that a machine becomes step by step, wherever the output of each step goes. -/
inductive Stepped (start : Machine) : Machine → Prop
  | start : Stepped start start
  | step {machine : Machine} (sink : Sink) (earlier : Stepped start machine) :
      Stepped start (machine.step sink).machine

/-- What holds of every machine that follows a loaded container without a limit on its fuel. -/
structure Follows (container : Container) (machine : Machine) : Prop where
  intact : Intact (some container) machine
  fuel : machine.fuel = none
  fault : machine.status = .running → machine.fault = none

theorem started_follows {fresh : Machine} {container : Container}
    (loadable : container.Loadable) (unlimited : fresh.fuelLimit = none) :
    Follows container (fresh.started container) :=
  ⟨fresh.started_intact loadable, unlimited, fun _ => rfl⟩

/-- A step takes no fuel where there is no limit. -/
theorem step_unlimited {machine : Machine} (unlimited : machine.fuel = none) (sink : Sink) :
    (machine.step sink).machine.fuel = none := by
  by_cases running : machine.IsRunning
  · rw [step_running machine sink running]
    have cases := machine.attempt_cases sink
    generalize machine.attempt sink = progress at cases ⊢
    have prepared : machine.prepared.fuel = none := by
      rw [prepared, spent_unlimited unlimited]
      exact unlimited
    cases cases with
    | exhausted limit empty | unlimited empty =>
        rw [unlimited] at empty
        cases empty
    | refused error =>
        rw [spent_unlimited unlimited]
        exact unlimited
    | failed instruction error | done instruction =>
        have frame := machine.prepared.execute_frame sink instruction
        exact frame.fuel.trans prepared
  · rw [(step_stopped machine sink running).1]
    exact unlimited

/-- Only a machine without a fault is left running. -/
theorem step_fault {machine : Machine} (sink : Sink)
    (before : machine.status = .running → machine.fault = none)
    (after : (machine.step sink).machine.status = .running) :
    (machine.step sink).machine.fault = none := by
  by_cases running : machine.IsRunning
  · rw [step_running machine sink running] at after ⊢
    have cases := machine.attempt_cases sink
    generalize machine.attempt sink = progress at after cases ⊢
    cases cases with
    | exhausted limit | refused error | failed instruction error =>
        exact absurd after (fail_status _ _ _)
    | unlimited => exact running.fault
    | done instruction =>
        have frame := machine.prepared.execute_frame sink instruction
        exact frame.fault.trans running.fault
  · rw [(step_stopped machine sink running).1] at after ⊢
    exact before after

/-- A step keeps what holds. -/
theorem Follows.step {container : Container} {machine : Machine}
    (follows : Follows container machine) (sink : Sink) :
    Follows container (machine.step sink).machine where
  intact := follows.intact.of_frame (machine.step_frame sink)
  fuel := step_unlimited follows.fuel sink
  fault := step_fault sink follows.fault

theorem Stepped.follows {container : Container} {start machine : Machine}
    (stepped : Stepped start machine) (begun : Follows container start) :
    Follows container machine := by
  induction stepped with
  | start => exact begun
  | step sink _ inductionHypothesis => exact inductionHypothesis.step sink

/-- A step does what a statement says: its effect on the machine and on the output, or the fault at
the address of the instruction. -/
def StepsAs (machine : Machine) (sink : Sink) (statement : Statement) : Prop :=
  match statement.effect machine.fetched with
  | .ok (after, text) =>
      (machine.step sink).result = .ok () ∧ (machine.step sink).machine = after ∧
        (machine.step sink).sink = sink.extended text
  | .error error =>
      (machine.step sink).result = .error (.raised ⟨error, machine.pc⟩) ∧
        (machine.step sink).machine.fault = some ⟨error, machine.pc⟩ ∧
        (machine.step sink).sink = sink

/-- A machine at an encoded statement does what the statement says. -/
theorem step_encodes {machine : Machine} {sink : Sink} {located : Instruction}
    {statement : Statement} (running : machine.IsRunning) (fuel : machine.fuel = none)
    (unlimited : sink.limit = none) (next : machine.nextInstruction = .ok located)
    (encodes : located.Encodes statement) : machine.StepsAs sink statement := by
  have prepared : machine.prepared = machine.fetched := by
    rw [Machine.prepared, spent_unlimited fuel]
  have outcome := machine.fetched.execute_matches sink encodes
  have cases := machine.attempt_cases sink
  unfold StepsAs
  rw [step_running machine sink running]
  generalize machine.attempt sink = progress at cases ⊢
  cases cases with
  | exhausted limit empty | unlimited empty =>
      rw [fuel] at empty
      cases empty
  | refused error left refused =>
      rw [next] at refused
      cases refused
  | failed instruction error left found result =>
      rw [next] at found
      cases found
      rw [prepared] at result ⊢
      cases effect : statement.effect machine.fetched with
      | ok done =>
          rw [effect] at outcome
          have succeeded := (outcome.unlimited unlimited).1
          rw [result] at succeeded
          cases succeeded
      | error reason =>
          rw [effect] at outcome
          obtain ⟨raised, sameSink⟩ := outcome
          rw [result] at raised
          cases raised
          exact ⟨rfl, rfl, sameSink⟩
  | done instruction left found result =>
      rw [next] at found
      cases found
      rw [prepared] at result ⊢
      cases effect : statement.effect machine.fetched with
      | ok done =>
          rw [effect] at outcome
          exact ⟨rfl, (outcome.unlimited unlimited).2⟩
      | error reason =>
          rw [effect] at outcome
          have raised := outcome.1
          rw [result] at raised
          cases raised

/-- A machine loads a container and follows its program from then on: as long as it runs, at each
instruction it does what the statement of the instruction says. -/
def Lockstep (fresh : Machine) (container : Container) (interner : Interner)
    (program : Program) : Prop :=
  ∃ loaded, (fresh.load container.toBytes).value = .ok loaded ∧
    ∀ machine, Stepped loaded machine → machine.status = .running →
      ∀ (index line : Nat) (instruction : Source.Instruction),
        program.instructions[index]? = some (line, instruction) →
        machine.pc.toNat = RegisterMachine.Instruction.byteSize * index →
        ∃ statement, instruction.statement? interner program.contents = some statement ∧
          ∀ sink : Sink, sink.limit = none → machine.StepsAs sink statement

/-- In the place of an instruction the machine finds the encoded statement of the instruction. -/
theorem Intact.nextInstruction_implements {container : Container} {interner : Interner}
    {program : Program} {machine : Machine} (intact : Intact (some container) machine)
    (implemented : container.Implements interner program) {index line : Nat}
    {source : Source.Instruction}
    (item : program.instructions[index]? = some (line, source))
    (position : machine.pc.toNat = RegisterMachine.Instruction.byteSize * index) :
    ∃ located statement, machine.nextInstruction = .ok located ∧
      source.statement? interner program.contents = some statement ∧
      located.Encodes statement := by
  obtain ⟨located, statement, decoded, means, encodes⟩ :=
    implemented.slots index line source item
  have inProgram : index < program.instructions.length := (List.getElem?_eq_some_iff.mp item).1
  refine ⟨located, statement, ?_, means, encodes⟩
  apply (intact.nextInstruction_ok located).mpr
  rw [position, implemented.codeLength]
  refine ⟨?_, decoded⟩
  rw [← Nat.mul_succ]
  exact Nat.mul_le_mul_left _ inProgram

theorem implements_lockstep {container : Container} {interner : Interner} {program : Program}
    (implemented : container.Implements interner program) (loadable : container.Loadable)
    (fresh : Machine) (noFuelLimit : fresh.fuelLimit = none) :
    fresh.Lockstep container interner program := by
  refine ⟨fresh.started container, ?_, ?_⟩
  · rw [load_eq, Container.ofLoadable_toBytes loadable]
  · intro machine stepped status index line instruction item position
    have follows := stepped.follows (started_follows loadable noFuelLimit)
    obtain ⟨located, statement, next, means, encodes⟩ :=
      follows.intact.nextInstruction_implements implemented item position
    refine ⟨statement, means, ?_⟩
    intro sink unlimited
    exact step_encodes ⟨status, follows.fault status⟩ follows.fuel unlimited next encodes

end Machine

/-- A program with an instruction has a container that can be loaded. -/
theorem Source.Program.emit_loadable {interner : Interner} {program : Program}
    {container : Container} (implemented : container.Implements interner program)
    (emitted : (program.emit interner).value = .ok container)
    (nonempty : program.instructions ≠ []) : container.Loadable := by
  obtain ⟨layout, code, _, _, same⟩ := emit_ok emitted
  have hasCode : container.code ≠ [] := by
    intro empty
    have length := implemented.codeLength
    rw [empty, List.length_nil, RegisterMachine.Instruction.byteSize] at length
    have positive := List.length_pos_iff.mpr nonempty
    omega
  have fit := implemented.fit
  rw [same] at fit hasCode ⊢
  exact Container.ofSections_loadable layout.entryPoint fit hasCode

/-- The assembler and the machine together implement the source program: the container holds its
values at their addresses, and a machine that loads it executes the program in lockstep. -/
theorem assembled_lockstep {capacity : Nat} {source : String} {program : Program}
    {interner : Interner} {container : Container}
    (parsed : (read capacity source).value = .ok (program, interner))
    (emitted : (program.emit interner).value = .ok container)
    (nonempty : program.instructions ≠ []) (fresh : Machine)
    (noFuelLimit : fresh.fuelLimit = none) :
    container.Implements interner program ∧ fresh.Lockstep container interner program := by
  have implemented := Program.emit_implements (read_wellKinded parsed) emitted
  have loadable := Program.emit_loadable implemented emitted nonempty
  exact ⟨implemented, Machine.implements_lockstep implemented loadable fresh noFuelLimit⟩

/-- A loop that adds a word of the data, prints a text and compares is executed in lockstep. -/
theorem assembled_lockstep_loop :
    ∃ program interner container,
      (read 10 "top:\nadd r0, x\nprint_str \"A\"\ncmp\njlt top\n.DATA x 5").value =
        .ok (program, interner) ∧
      (program.emit interner).value = .ok container ∧ program.instructions ≠ [] ∧
      (Machine.empty none).Lockstep container interner program := by
  have accepted :
      (match (read 10 "top:\nadd r0, x\nprint_str \"A\"\ncmp\njlt top\n.DATA x 5").value with
        | .ok (program, interner) =>
            (program.emit interner).value.isOk && !program.instructions.isEmpty
        | .error _ => false) = true := by
    decide +kernel
  split at accepted
  · rename_i program interner parsed
    rw [Bool.and_eq_true] at accepted
    cases emitted : (program.emit interner).value with
    | error reason =>
        rw [emitted] at accepted
        cases accepted.1
    | ok container =>
        have nonempty : program.instructions ≠ [] := by simpa using accepted.2
        exact ⟨program, interner, container, parsed, emitted, nonempty,
          (assembled_lockstep parsed emitted nonempty (Machine.empty none) rfl).2⟩
  · cases accepted

end RegisterMachine
