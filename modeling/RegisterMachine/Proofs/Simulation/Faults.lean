/-
This file proves that assembled code never meets an operand that its instruction does not take.
Jumps, calls and the entry point lead to starts of instructions, so the program counter stays on
them as long as no return leads it away, and there every slot holds an encoded statement.
-/

import RegisterMachine.Proofs.Layout.Alignment
import RegisterMachine.Proofs.Machine.FailedStep
import RegisterMachine.Proofs.Simulation.Effect
import RegisterMachine.Proofs.Simulation.Lockstep

namespace RegisterMachine

open Source

namespace Container

/-- An address inside the code is the start of an instruction. -/
def Aligned (container : Container) (address : UInt32) : Prop :=
  address.toNat < container.code.length → Instruction.byteSize ∣ address.toNat

namespace Implements

variable {container : Container} {interner : Interner} {program : Program}

/-- No name leads into an instruction. -/
theorem symbolAddress?_aligned (implemented : container.Implements interner program)
    {name : Symbol} {address : UInt32}
    (found : symbolAddress? interner program.contents name = some address) :
    container.Aligned address := by
  have fit := implemented.fit
  have codeFits := fit.code
  intro inCode
  apply Source.symbolAddress?_aligned _ _ _ found (Nat.lt_of_lt_of_le inCode codeFits)
  · rw [program.codeSize_contents, ← implemented.codeLength]
    exact codeFits
  · rw [← implemented.rodata]
    exact fit.rodata
  · rw [← implemented.data]
    exact fit.data

/-- The program counter is on an instruction of the program or outside the code. -/
theorem nextInstruction (implemented : container.Implements interner program)
    {machine : Machine} (intact : machine.Intact (some container))
    (aligned : container.Aligned machine.pc) :
    machine.nextInstruction = .error (.pcOutOfBounds machine.pc) ∨
      ∃ line source located statement, (line, source) ∈ program.instructions ∧
        machine.nextInstruction = .ok located ∧
        source.statement? interner program.contents = some statement ∧
        located.Encodes statement := by
  have codeEnd : machine.codeEnd.toNat = container.code.length := intact.codeEnd
  by_cases inCode : machine.pc.toNat < container.code.length
  · obtain ⟨index, position⟩ := aligned inCode
    rw [position, implemented.codeLength] at inCode
    have inProgram : index < program.instructions.length := Nat.lt_of_mul_lt_mul_left inCode
    have item := List.getElem?_eq_getElem inProgram
    obtain ⟨located, statement, next, means, encodes⟩ :=
      intact.nextInstruction_implements implemented item position
    exact .inr ⟨_, _, located, statement, List.getElem_mem inProgram, next, means, encodes⟩
  · refine .inl (if_pos ?_)
    rw [codeEnd, Instruction.byteSize]
    omega

end Implements

end Container

namespace Machine

/-- A return that the step executes leads to a multiple of the size of an instruction. -/
def ReturnsAligned (machine : Machine) (sink : Sink) : Prop :=
  ∀ pc instruction, .instruction pc instruction ∈ (machine.step sink).trace →
    instruction.opcode = .ret → (machine.step sink).result = .ok () →
      Instruction.byteSize ∣ (machine.step sink).machine.pc.toNat

/-- An error of the program itself, or of one of the writers that refused a text. -/
def Explained (writers : Sink → Prop) (error : RuntimeError) : Prop :=
  error.ofProgram ∨
    ∃ (reason : OutputError) (sink : Sink) (text : List UInt8),
      error = .output reason ∧ writers sink ∧ (sink.write text).2 = .error reason

/-- What holds of every machine that executes assembled code. -/
structure Sound (container : Container) (writers : Sink → Prop) (machine : Machine) : Prop where
  intact : machine.Intact (some container)
  fuel : machine.fuelLimit = none → machine.fuel = none
  aligned : container.Aligned machine.pc
  fault : ∀ fault, machine.fault = some fault → Explained writers fault.error

/-- The program counter past an instruction is aligned if the one before is. -/
theorem Intact.fetched_aligned {container : Container} {machine : Machine}
    (intact : machine.Intact (some container)) (aligned : container.Aligned machine.pc)
    {instruction : Instruction} (next : machine.nextInstruction = .ok instruction) :
    container.Aligned machine.fetched.pc := by
  intro _
  have inCode := ((intact.nextInstruction_ok instruction).mp next).1
  rw [Instruction.byteSize] at inCode
  have whole := aligned (by omega)
  rw [fetched_pc next]
  exact Nat.dvd_add whole (Nat.dvd_refl 8)

/-- An encoded statement fails only for an error of the program or for one of its writer. -/
theorem execute_explained {machine : Machine} {sink : Sink} {instruction : Instruction}
    {statement : Statement} {writers : Sink → Prop} {error : RuntimeError}
    (encodes : instruction.Encodes statement) (writes : writers sink)
    (failed : (machine.execute sink instruction).result = .error (.raised error)) :
    Explained writers error := by
  have outcome := machine.execute_matches sink encodes
  cases effect : statement.effect machine with
  | error raised =>
      rw [effect] at outcome
      have same := outcome.1
      rw [failed] at same
      cases same
      exact .inl (statement.effect_raises machine error effect)
  | ok done =>
      obtain ⟨after, text⟩ := done
      rw [effect] at outcome
      have same := outcome.1
      rw [failed] at same
      cases written : (sink.write text).2 with
      | ok value =>
          rw [written] at same
          cases same
      | error reason =>
          rw [written] at same
          cases same
          exact .inr ⟨reason, sink, text, rfl, writes, written⟩

/-- An encoded statement that is no return leads to the next instruction or to the target of its
source. -/
theorem execute_pc {machine : Machine} {sink : Sink} {instruction : Instruction}
    {statement : Statement} (encodes : instruction.Encodes statement)
    (done : (machine.execute sink instruction).result = .ok ())
    (stays : statement ≠ .returnFromCall) :
    (machine.execute sink instruction).machine.pc = machine.pc ∨
      statement.target? = some (machine.execute sink instruction).machine.pc := by
  have outcome := machine.execute_matches sink encodes
  cases effect : statement.effect machine with
  | error raised =>
      rw [effect] at outcome
      have same := outcome.1
      rw [done] at same
      cases same
  | ok value =>
      obtain ⟨after, text⟩ := value
      rw [effect] at outcome
      rw [outcome.2.1]
      exact Statement.update_pc (Statement.effect_update effect) stays

/-- A failed execution leaves the program counter alone. -/
theorem execute_failed_pc {machine : Machine} {sink : Sink} {instruction : Instruction}
    {error : RuntimeError}
    (failed : (machine.execute sink instruction).result = .error (.raised error)) :
    (machine.execute sink instruction).machine.pc = machine.pc := by
  obtain ⟨⟨_, same, _⟩, _⟩ := execute_failed failed
  rw [same]

section Steps

variable {container : Container} {interner : Interner} {program : Program}
  {writers : Sink → Prop} {machine : Machine} {sink : Sink}

/-- How a step of assembled code ends: with a fault that is explained, at an aligned address, or
wherever a return of the program leads. -/
inductive Ends (container : Container) (writers : Sink → Prop) (program : Program)
    (progress : Progress) : Prop
  | fault (fault : Fault) (result : progress.result = .error (.raised fault))
      (recorded : progress.machine.fault = some fault)
      (explained : Explained writers fault.error)
      (aligned : container.Aligned progress.machine.pc)
  | done (result : progress.result = .ok ()) (unfaulted : progress.machine.fault = none)
      (aligned : container.Aligned progress.machine.pc)
      (others : ∀ pc instruction, .instruction pc instruction ∈ progress.trace →
        instruction.opcode ≠ .ret)
  | returned (result : progress.result = .ok ()) (unfaulted : progress.machine.fault = none)
      (executed : ∃ pc instruction, .instruction pc instruction ∈ progress.trace ∧
        instruction.opcode = .ret)
      (written : ∃ item ∈ program.instructions, item.2.opcode = .ret)

theorem attempt_ends (implemented : container.Implements interner program)
    (sound : Sound container writers machine) (running : machine.IsRunning)
    (writes : writers sink) : Ends container writers program (machine.attempt sink) := by
  have cases := machine.attempt_cases sink
  generalize machine.attempt sink = progress at cases ⊢
  have next := implemented.nextInstruction sound.intact sound.aligned
  cases cases with
  | exhausted limit => exact .fault _ rfl rfl (.inl rfl) sound.aligned
  | unlimited empty unlimited =>
      rw [sound.fuel unlimited] at empty
      cases empty
  | refused error left refused =>
      rw [refused] at next
      rcases next with outside | ⟨_, _, _, _, _, found, _⟩
      · cases outside
        exact .fault _ rfl rfl (.inl rfl) sound.aligned
      · cases found
  | failed instruction error left decoded result =>
      rw [decoded] at next
      rcases next with outside | ⟨_, _, _, _, _, found, _, encodes⟩
      · cases outside
      · cases found
        refine .fault _ rfl rfl (execute_explained encodes writes result) ?_
        have past : container.Aligned machine.prepared.pc :=
          sound.intact.fetched_aligned sound.aligned decoded
        rw [← execute_failed_pc result] at past
        exact past
  | done instruction left decoded result =>
      rw [decoded] at next
      rcases next with outside | ⟨line, source, _, statement, member, found, means, encodes⟩
      · cases outside
      · cases found
        obtain ⟨opcode, leads⟩ := Instruction.statement?_some means
        have unfaulted := (machine.prepared.execute_frame sink instruction).fault.trans
          running.fault
        by_cases isReturn : instruction.opcode = .ret
        · have written : source.opcode = .ret := by
            rw [← opcode, ← encodes.opcode]
            exact isReturn
          exact .returned rfl unfaulted ⟨machine.pc, instruction, by simp [isReturn], isReturn⟩
            ⟨(line, source), member, written⟩
        · have stays : statement ≠ .returnFromCall := by
            intro same
            rw [same] at encodes
            exact isReturn encodes.opcode
          refine .done rfl unfaulted ?_ ?_
          · rcases execute_pc encodes result stays with past | jumps
            · rw [past]
              exact sound.intact.fetched_aligned sound.aligned decoded
            · have target := leads _ jumps
              unfold Operand.target? at target
              split at target
              · exact implemented.symbolAddress?_aligned target
              · cases target
          · intro pc other executed
            have same : pc = machine.pc ∧ other = instruction := by
              dsimp only at executed
              split at executed
              · simpa using executed
              · simpa using executed
            rw [same.2]
            exact isReturn

/-- A step keeps what holds, if no return leads it away. -/
theorem Sound.step (implemented : container.Implements interner program)
    (sound : Sound container writers machine) (writes : writers sink)
    (returns : machine.ReturnsAligned sink) :
    Sound container writers (machine.step sink).machine := by
  have frame := machine.step_frame sink
  have fuel : (machine.step sink).machine.fuelLimit = none →
      (machine.step sink).machine.fuel = none := by
    intro unlimited
    rw [frame.fuelLimit] at unlimited
    exact step_unlimited (sound.fuel unlimited) sink
  refine ⟨sound.intact.of_frame frame, fuel, ?_, ?_⟩
  · by_cases running : machine.IsRunning
    · rw [ReturnsAligned, step_running machine sink running] at *
      cases attempt_ends implemented sound running writes with
      | fault _ _ _ _ aligned | done _ _ aligned => exact aligned
      | returned result _ executed =>
          obtain ⟨pc, instruction, member, isReturn⟩ := executed
          exact fun _ => returns pc instruction member isReturn result
    · rw [(step_stopped machine sink running).1]
      exact sound.aligned
  · by_cases running : machine.IsRunning
    · rw [step_running machine sink running]
      intro fault found
      cases attempt_ends implemented sound running writes with
      | fault other _ recorded explained =>
          rw [recorded] at found
          rw [← Option.some.inj found]
          exact explained
      | done _ unfaulted | returned _ unfaulted =>
          rw [unfaulted] at found
          cases found
    · rw [(step_stopped machine sink running).1]
      exact sound.fault

/-- What is seen of a machine that executes assembled code: it is at the start of an instruction or
outside the code, and no fault is about the form of an instruction. -/
structure Safe (container : Container) (writers : Sink → Prop) (machine : Machine) : Prop where
  aligned : machine.pc.toNat < container.code.length →
    Instruction.byteSize ∣ machine.pc.toNat
  fault : ∀ fault, machine.fault = some fault → Explained writers fault.error
  step : ∀ sink, writers sink → ∀ reason, (machine.step sink).result = .error reason →
    ∃ fault, reason = .raised fault ∧ (machine.step sink).machine.fault = some fault ∧
      Explained writers fault.error

theorem Sound.safe (implemented : container.Implements interner program)
    (sound : Sound container writers machine) : Safe container writers machine where
  aligned := sound.aligned
  fault := sound.fault
  step := by
    intro sink writes reason failed
    by_cases running : machine.IsRunning
    · rw [step_running machine sink running] at failed ⊢
      cases attempt_ends implemented sound running writes with
      | fault fault result recorded explained =>
          rw [result] at failed
          cases failed
          exact ⟨fault, rfl, recorded, explained⟩
      | done result | returned result =>
          rw [result] at failed
          cases failed
    · rw [(step_stopped machine sink running).1]
      unfold Machine.step at failed
      split at failed
      · rename_i fault recorded
        cases failed
        exact ⟨fault, rfl, recorded, sound.fault fault recorded⟩
      · split at failed
        · rename_i unfaulted status
          exact absurd ⟨status, unfaulted⟩ running
        · cases failed

/-- Without a return in the program every step goes to an aligned address. -/
theorem Sound.returnsAligned (implemented : container.Implements interner program)
    (sound : Sound container writers machine) (writes : writers sink)
    (noReturn : ∀ item ∈ program.instructions, item.2.opcode ≠ .ret) :
    machine.ReturnsAligned sink := by
  intro pc instruction executed isReturn result
  by_cases running : machine.IsRunning
  · rw [step_running machine sink running] at executed result
    cases attempt_ends implemented sound running writes with
    | fault _ failed =>
        rw [failed] at result
        cases result
    | done _ _ _ others => exact absurd isReturn (others pc instruction executed)
    | returned _ _ _ written =>
        obtain ⟨item, member, opcode⟩ := written
        exact absurd opcode (noReturn item member)
  · rw [step_stopped_trace machine sink running] at executed
    cases executed

theorem SteppedBy.sound {start : Machine} (implemented : container.Implements interner program)
    (begun : Sound container writers start)
    (stepped : SteppedBy (fun machine sink => writers sink ∧ machine.ReturnsAligned sink) start
      machine) : Sound container writers machine := by
  induction stepped with
  | start => exact begun
  | step sink _ admitted inductionHypothesis =>
      exact inductionHypothesis.step implemented admitted.1 admitted.2

theorem SteppedBy.sound_of_noReturn {start : Machine}
    (implemented : container.Implements interner program)
    (begun : Sound container writers start)
    (noReturn : ∀ item ∈ program.instructions, item.2.opcode ≠ .ret)
    (stepped : SteppedBy (fun _ sink => writers sink) start machine) :
    Sound container writers machine := by
  induction stepped with
  | start => exact begun
  | step sink _ writes inductionHypothesis =>
      exact inductionHypothesis.step implemented writes
        (inductionHypothesis.returnsAligned implemented writes noReturn)

end Steps

/-- A machine loads a container and is safe from then on, as long as its returns lead to multiples
of the size of an instruction; in a program without returns it always is. -/
def StaysSafe (fresh : Machine) (container : Container) (program : Program) : Prop :=
  ∃ loaded, (fresh.load container.toBytes).value = .ok loaded ∧
    ∀ (writers : Sink → Prop) (machine : Machine),
      (SteppedBy (fun machine sink => writers sink ∧ machine.ReturnsAligned sink) loaded machine →
        Safe container writers machine) ∧
      ((∀ item ∈ program.instructions, item.2.opcode ≠ .ret) →
        SteppedBy (fun _ sink => writers sink) loaded machine → Safe container writers machine)

theorem started_sound {container : Container} {writers : Sink → Prop} (fresh : Machine)
    (loadable : container.Loadable) (entry : container.Aligned container.header.entryPoint) :
    Sound container writers (fresh.started container) where
  intact := fresh.started_intact loadable
  fuel unlimited := unlimited
  aligned := by
    have start : (fresh.started container).pc = container.header.entryPoint :=
      UInt32.zero_add container.header.entryPoint
    rw [start]
    exact entry
  fault := by
    intro fault found
    cases found

theorem implements_staysSafe {container : Container} {interner : Interner} {program : Program}
    (implemented : container.Implements interner program) (loadable : container.Loadable)
    (entry : container.Aligned container.header.entryPoint) (fresh : Machine) :
    fresh.StaysSafe container program := by
  refine ⟨fresh.started container, ?_, ?_⟩
  · rw [load_eq, Container.ofLoadable_toBytes loadable]
  · intro writers machine
    have begun : Sound container writers (fresh.started container) :=
      fresh.started_sound loadable entry
    constructor
    · intro stepped
      exact (SteppedBy.sound implemented begun stepped).safe implemented
    · intro noReturn stepped
      exact (SteppedBy.sound_of_noReturn implemented begun noReturn stepped).safe implemented

end Machine

/-- Execution starts at an aligned address. -/
theorem Source.Program.emit_entryPoint {interner : Interner} {program : Program}
    {container : Container} (implemented : container.Implements interner program)
    (emitted : (program.emit interner).value = .ok container) :
    container.Aligned container.header.entryPoint := by
  obtain ⟨layout, code, placed, _, same⟩ := emit_ok emitted
  have entry : container.header.entryPoint = layout.entryPoint := by
    rw [same]
    rfl
  rw [entry]
  rcases Placement.entryPoint_ok (Layout.ofProgram_entryPoint placed) with
    ⟨_, start⟩ | ⟨name, _, _, bound, _⟩
  · rw [start]
    exact fun _ => Nat.dvd_zero _
  · rw [(Layout.ofProgram_ok placed).1.symbols] at bound
    exact implemented.symbolAddress?_aligned bound

/-- Assembled code is safe: whatever the fuel and wherever the output goes, it only stops for
reasons of its own. -/
theorem assembled_staysSafe {capacity : Nat} {source : String} {program : Program}
    {interner : Interner} {container : Container}
    (parsed : (read capacity source).value = .ok (program, interner))
    (emitted : (program.emit interner).value = .ok container)
    (nonempty : program.instructions ≠ []) (fresh : Machine) :
    fresh.StaysSafe container program := by
  have implemented := Program.emit_implements (read_wellKinded parsed) emitted
  have loadable := Program.emit_loadable implemented emitted nonempty
  have entry := Program.emit_entryPoint implemented emitted
  exact Machine.implements_staysSafe implemented loadable entry fresh

/-- A program that calls a function stays safe with ten units of fuel. -/
theorem assembled_staysSafe_call :
    ∃ program interner container,
      (read 10 ".START main\nf: pop r1\nmain: call f\nhalt").value = .ok (program, interner) ∧
      (program.emit interner).value = .ok container ∧ program.instructions ≠ [] ∧
      (Machine.empty (some 10)).StaysSafe container program := by
  have accepted : (read 10 ".START main\nf: pop r1\nmain: call f\nhalt").value.toOption.any
      fun parsed => (parsed.1.emit parsed.2).value.toOption.any fun _ =>
        !parsed.1.instructions.isEmpty := by
    decide +kernel
  obtain ⟨⟨program, interner⟩, parsed, accepted⟩ := exists_ok accepted
  obtain ⟨container, emitted, filled⟩ := exists_ok accepted
  have nonempty : program.instructions ≠ [] := by simpa using filled
  exact ⟨program, interner, container, parsed, emitted, nonempty,
    assembled_staysSafe parsed emitted nonempty (Machine.empty (some 10))⟩

end RegisterMachine
