/-
This file follows the stack through whole runs. A list of words is kept beside the machine, and as
long as no instruction names the stack pointer as its destination, the stack in memory is the list.
-/

import RegisterMachine.Proofs.Machine.Image
import RegisterMachine.Proofs.Machine.WordStack

namespace RegisterMachine.Machine

/-- The instruction that a step executes, as its trace shows it. -/
def executed? (machine : Machine) (sink : Sink) : Option Instruction :=
  (machine.step sink).trace.findSome? fun event =>
    match event with
    | .instruction _ instruction => some instruction
    | .halt _ | .fault _ => none

/-- The step executes no instruction that names the stack pointer as the register to change. -/
def SparesPointer (machine : Machine) (sink : Sink) : Prop :=
  ∀ instruction, machine.executed? sink = some instruction → ¬instruction.AssignsPointer

/-- The list of words after a step. A list that has no room or no word for the instruction stays as
it is, and so it does in a step that executes none. -/
def wordsAfter (machine : Machine) (sink : Sink) (words : List UInt32) : List UInt32 :=
  match machine.executed? sink with
  | some instruction =>
      match (instruction.stackAction machine.fetched).apply words with
      | .ok later => later
      | .error _ => words
  | none => words

/-- The machines of a run, each with the list of words that the instructions so far have made. -/
inductive StackRun (start : Machine) : Machine → List UInt32 → Prop
  | start : StackRun start start []
  | step {machine : Machine} {words : List UInt32} (sink : Sink)
      (earlier : StackRun start machine words) (spares : machine.SparesPointer sink) :
      StackRun start (machine.step sink).machine (machine.wordsAfter sink words)

/-- A step does with the stack what its instruction does with the list. It fails for the reason that
the list gives, and the word that is taken away goes where the instruction wants it. -/
structure RefinesList (machine : Machine) (sink : Sink) (instruction : Instruction)
    (words : List UInt32) : Prop where
  accepted : ∀ later, (instruction.stackAction machine.fetched).apply words = .ok later →
    Stacked later (machine.step sink).machine ∧
      (instruction.stackAction machine.fetched ≠ .keep → (machine.step sink).result = .ok ())
  refused : ∀ error, (instruction.stackAction machine.fetched).apply words = .error error →
    Stacked words (machine.step sink).machine ∧
      (machine.step sink).result = .error (.raised ⟨error, machine.pc⟩)
  received : instruction.stackAction machine.fetched = .pop → ∀ value older,
    words = value :: older → instruction.Receives value (machine.step sink).machine

/-- What becomes of an instruction that a step executes. -/
theorem step_executed {machine : Machine} {sink : Sink} {instruction : Instruction}
    (found : machine.executed? sink = some instruction) :
    machine.nextInstruction = .ok instruction ∧
    match (machine.prepared.execute sink instruction).result with
    | .ok () => (machine.step sink).result = .ok () ∧
        (machine.step sink).machine = (machine.prepared.execute sink instruction).machine
    | .error (.raised error) =>
        (machine.step sink).result = .error (.raised ⟨error, machine.pc⟩) ∧
          SameStack machine (machine.step sink).machine
    | .error (.defect _) => False := by
  unfold executed? at found
  by_cases running : machine.IsRunning
  · rw [step_running machine sink running] at found ⊢
    have cases := machine.attempt_cases sink
    generalize machine.attempt sink = progress at cases found ⊢
    cases cases with
    | exhausted | unlimited | refused => cases found
    | failed other error left next result =>
        obtain rfl : other = instruction := Option.some.inj found
        have same := execute_failedStack result
        rw [result]
        exact ⟨next, rfl, same.sp, same.memory⟩
    | done other left next result =>
        have same : other = instruction := by
          dsimp only at found
          split at found <;> exact Option.some.inj found
        rw [same] at next result ⊢
        rw [result]
        exact ⟨next, rfl, rfl⟩
  · rw [step_stopped_trace machine sink running] at found
    cases found

theorem step_succeeded {machine : Machine} {sink : Sink} {instruction : Instruction}
    (found : machine.executed? sink = some instruction)
    (done : (machine.step sink).result = .ok ()) :
    (machine.prepared.execute sink instruction).result = .ok () := by
  obtain ⟨_, executed⟩ := step_executed found
  split at executed
  · assumption
  · rw [executed.1] at done
    cases done
  · exact executed.elim

/-- A step that executes nothing leaves the stack alone. -/
theorem step_idle {machine : Machine} {sink : Sink} (idle : machine.executed? sink = none) :
    SameStack machine (machine.step sink).machine := by
  unfold executed? at idle
  by_cases running : machine.IsRunning
  · rw [step_running machine sink running] at idle ⊢
    have cases := machine.attempt_cases sink
    generalize machine.attempt sink = progress at cases idle ⊢
    cases cases with
    | exhausted | unlimited | refused => exact ⟨rfl, rfl⟩
    | failed => cases idle
    | done instruction left next result =>
        dsimp only at idle
        split at idle <;> cases idle
  · rw [(step_stopped machine sink running).1]
    exact .refl machine

section Steps

variable {machine : Machine} {sink : Sink} {instruction : Instruction} {words : List UInt32}

/-- The stack goes on to be the list whenever an instruction is executed. -/
theorem step_refinesList (stacked : Stacked words machine)
    (found : machine.executed? sink = some instruction) (spares : ¬instruction.AssignsPointer) :
    RefinesList machine sink instruction words := by
  have prepared : Stacked words machine.prepared := stacked.of_same ⟨rfl, rfl⟩
  obtain ⟨_, executed⟩ := step_executed found
  have outcome := execute_refinesList sink prepared spares
  change match (instruction.stackAction machine.fetched).apply words with
    | .ok later => _
    | .error error => _ at outcome
  constructor
  · intro later accepted
    rw [accepted] at outcome
    obtain ⟨restacked, succeeds⟩ := outcome
    cases result : (machine.prepared.execute sink instruction).result with
    | ok value =>
        rw [result] at executed
        rw [executed.2]
        exact ⟨restacked, fun _ => executed.1⟩
    | error reason =>
        -- Only an instruction without an action can fail here, and the list is as it was.
        have keeps : instruction.stackAction machine.fetched = .keep := by
          by_contra changes
          have done := succeeds changes
          rw [result] at done
          cases done
        rw [keeps] at accepted
        obtain rfl : words = later := Except.ok.inj accepted
        refine ⟨?_, fun changes => absurd keeps changes⟩
        rw [result] at executed
        cases reason with
        | raised error => exact stacked.of_same executed.2
        | defect cause => exact executed.elim
  · intro error refused
    rw [refused] at outcome
    rw [outcome] at executed
    exact ⟨stacked.of_same executed.2, executed.1⟩
  · intro pops value older same
    subst same
    obtain ⟨result, _, received⟩ := execute_popped sink prepared spares pops
    rw [result] at executed
    rw [executed.2]
    exact received

/-- A step does with the stack what it does with the list. -/
theorem Stacked.step (stacked : Stacked words machine) (spares : machine.SparesPointer sink) :
    Stacked (machine.wordsAfter sink words) (machine.step sink).machine := by
  unfold wordsAfter
  cases found : machine.executed? sink with
  | none => exact stacked.of_same (step_idle found)
  | some instruction =>
      have refined := step_refinesList stacked found (spares instruction found)
      dsimp only
      cases applied : (instruction.stackAction machine.fetched).apply words with
      | ok later => exact (refined.accepted later applied).1
      | error error => exact (refined.refused error applied).1

theorem sparesPointer_of_executed (found : machine.executed? sink = some instruction)
    (spares : ¬instruction.AssignsPointer) : machine.SparesPointer sink := by
  intro other same
  rw [found] at same
  rw [← Option.some.inj same]
  exact spares

/-- An instruction that adds a word names no register to change. -/
theorem push_spares {value : UInt32}
    (adds : instruction.stackAction machine = .push value) : ¬instruction.AssignsPointer := by
  rintro ⟨assigns, _⟩
  rcases stackAction_push adds with ⟨opcode, _⟩ | ⟨opcode, _⟩
  · rw [opcode] at assigns
    cases assigns
  · rw [opcode] at assigns
    cases assigns

/-- A word that a step added is on top of the stack. -/
theorem Stacked.step_added {value : UInt32} (stacked : Stacked words machine)
    (found : machine.executed? sink = some instruction)
    (adds : instruction.stackAction machine.fetched = .push value)
    (added : (machine.step sink).result = .ok ()) :
    Stacked (value :: words) (machine.step sink).machine := by
  have refined := step_refinesList stacked found (push_spares adds)
  have accepted := refined.accepted (value :: words)
  have refused := refined.refused .stackOverflow
  rw [adds, StackAction.apply] at accepted refused
  by_cases room : words.length < StackAction.capacity
  · exact (accepted (if_pos room)).1
  · rw [(refused (if_neg room)).2] at added
    cases added

/-- A step that takes a word away succeeds if there is one. -/
theorem Stacked.step_taken {value : UInt32} (stacked : Stacked (value :: words) machine)
    (found : machine.executed? sink = some instruction)
    (takes : instruction.stackAction machine.fetched = .pop)
    (spares : ¬instruction.AssignsPointer) :
    Stacked words (machine.step sink).machine ∧ (machine.step sink).result = .ok () ∧
      instruction.Receives value (machine.step sink).machine := by
  have refined := step_refinesList stacked found spares
  have accepted := refined.accepted words
  rw [takes] at accepted
  obtain ⟨restacked, succeeds⟩ := accepted rfl
  exact ⟨restacked, succeeds nofun, refined.received takes value words rfl⟩

end Steps

/-- The stack of a loaded machine is empty. -/
theorem load_stacked {fresh loaded : Machine} {bytes : List UInt8}
    (accepted : (fresh.load bytes).value = .ok loaded) : Stacked [] loaded := by
  rw [load_eq] at accepted
  cases checked : (Container.ofLoadable bytes).value with
  | error reason =>
      rw [checked] at accepted
      cases accepted
  | ok container =>
      rw [checked] at accepted
      rw [← Except.ok.inj accepted]
      refine ⟨rfl, Nat.zero_le _, ?_⟩
      intro index inside
      cases inside

/-- Every run has its list of words. -/
theorem SteppedBy.stackRun {start machine : Machine}
    (stepped : SteppedBy SparesPointer start machine) : ∃ words, StackRun start machine words := by
  induction stepped with
  | start => exact ⟨[], .start⟩
  | step sink _ spares inductionHypothesis =>
      obtain ⟨words, earlier⟩ := inductionHypothesis
      exact ⟨_, earlier.step sink spares⟩

theorem StackRun.stacked {start machine : Machine} {words : List UInt32}
    (begun : Stacked [] start) (run : StackRun start machine words) : Stacked words machine := by
  induction run with
  | start => exact begun
  | step sink _ spares inductionHypothesis => exact inductionHypothesis.step spares

/-- Runs of which every word that they add is taken away again, one inside the other. -/
inductive Balanced : Machine → Machine → Prop
  | none (machine : Machine) : Balanced machine machine
  | other {machine after : Machine} (sink : Sink) (spares : machine.SparesPointer sink)
      (keeps : ∀ instruction, machine.executed? sink = some instruction →
        instruction.stackAction machine.fetched = .keep)
      (rest : Balanced (machine.step sink).machine after) : Balanced machine after
  | nested {machine inner after : Machine} {sink innerSink : Sink} {pushing popping : Instruction}
      {value : UInt32} (pushes : machine.executed? sink = some pushing)
      (adds : pushing.stackAction machine.fetched = .push value)
      (added : (machine.step sink).result = .ok ())
      (between : Balanced (machine.step sink).machine inner)
      (pops : inner.executed? innerSink = some popping)
      (takes : popping.stackAction inner.fetched = .pop) (spares : ¬popping.AssignsPointer)
      (rest : Balanced (inner.step innerSink).machine after) : Balanced machine after

/-- Balanced runs leave the list as it was. -/
theorem Balanced.stacked {machine after : Machine} {words : List UInt32}
    (balanced : Balanced machine after) (stacked : Stacked words machine) :
    Stacked words after := by
  -- A nested run keeps a longer list, with the added word on top.
  induction balanced generalizing words with
  | none => exact stacked
  | @other machine after sink spares keeps rest inductionHypothesis =>
      apply inductionHypothesis
      cases found : machine.executed? sink with
      | none => exact stacked.of_same (step_idle found)
      | some instruction =>
          have refined := step_refinesList stacked found (spares instruction found)
          have accepted := refined.accepted words
          rw [keeps instruction found] at accepted
          exact (accepted rfl).1
  | nested pushes adds added _ pops takes spares _ between rest =>
      have pushed := stacked.step_added pushes adds added
      exact rest ((between pushed).step_taken pops takes spares).1

/-- A return after a balanced run goes on behind the call that the run began with. -/
def ReturnsPast (machine : Machine) (sink : Sink) : Prop :=
  ∀ call, machine.executed? sink = some call → call.opcode = .call →
    (machine.step sink).result = .ok () →
      ∀ inner, Balanced (machine.step sink).machine inner →
        ∀ returnSink back, inner.executed? returnSink = some back → back.opcode = .ret →
          (inner.step returnSink).result = .ok () ∧
            (inner.step returnSink).machine.pc.toNat = machine.pc.toNat + Instruction.byteSize

theorem Stacked.returnsPast {machine : Machine} {words : List UInt32}
    (stacked : Stacked words machine) (sink : Sink) : machine.ReturnsPast sink := by
  intro call called opcode added inner between returnSink back returns isReturn
  have next := (step_executed called).1
  have adds : call.stackAction machine.fetched = .push machine.fetched.pc := by
    have done := step_succeeded called added
    obtain ⟨_, _, access⟩ := execute_stackAccess (by rw [opcode]; rfl) done
    exact stackAction_call opcode access.acts
  have pushed := between.stacked (stacked.step_added called adds added)
  have takes : back.stackAction inner.fetched = .pop := by
    rw [Instruction.stackAction, isReturn]
  have spares : ¬back.AssignsPointer := by
    rintro ⟨assigns, _⟩
    rw [isReturn] at assigns
    cases assigns
  obtain ⟨_, result, received⟩ := pushed.step_taken returns takes spares
  rw [Instruction.Receives, isReturn] at received
  refine ⟨result, ?_⟩
  rw [received, fetched_pc next]
  rfl

/-- From a load on, the stack is a list of words as long as no instruction names the stack pointer
as the register to change. Each instruction does with the stack what it does with the list, and so a
return goes on behind its call. -/
theorem stack_refinesList {fresh loaded : Machine} {bytes : List UInt8}
    (accepted : (fresh.load bytes).value = .ok loaded) :
    (∀ machine, SteppedBy SparesPointer loaded machine →
      ∃ words, StackRun loaded machine words) ∧
    ∀ machine words, StackRun loaded machine words →
      Stacked words machine ∧
      (∀ sink instruction, machine.executed? sink = some instruction →
        ¬instruction.AssignsPointer → RefinesList machine sink instruction words) ∧
      ∀ sink, machine.ReturnsPast sink := by
  refine ⟨fun machine stepped => stepped.stackRun, ?_⟩
  intro machine words run
  have stacked := run.stacked (load_stacked accepted)
  refine ⟨stacked, ?_, stacked.returnsPast⟩
  intro sink instruction found spares
  exact step_refinesList stacked found spares

/-- A function that keeps a register on the stack for a while returns to the instruction after its
call. -/
theorem stack_refinesList_call :
    let code := [0x16, 0, 0, 16, 0, 0, 0, 0x20, 0x06, 0, 0, 0, 0, 0, 0, 0,
      0x18, 1, 0, 0, 0, 0, 0, 0, 0x19, 2, 0, 0, 0, 0, 0, 0, 0x17, 0, 0, 0, 0, 0, 0, 0]
    let container := Container.ofSections ⟨code, [], []⟩ 0
    let loaded := (empty none).started container
    let called := (loaded.step .unlimited).machine
    let pushed := (called.step .unlimited).machine
    let popped := (pushed.step .unlimited).machine
    ((empty none).load container.toBytes).value = .ok loaded ∧
      Stacked [0, 8] pushed ∧ (popped.step .unlimited).machine.pc.toNat = 8 := by
  intro code container loaded called pushed popped
  have checked : (Container.ofLoadable container.toBytes).value = .ok container := by
    decide +kernel
  have accepted : ((empty none).load container.toBytes).value = .ok loaded := by
    rw [load_eq, checked]
  have calls : loaded.executed? .unlimited =
      some ⟨.call, .immediateAddress 16, .absent, false, false⟩ := by
    decide +kernel
  have pushes : called.executed? .unlimited =
      some ⟨.push, .registerDirect 1, .absent, false, false⟩ := by
    decide +kernel
  have pops : pushed.executed? .unlimited =
      some ⟨.pop, .registerDirect 2, .absent, false, false⟩ := by
    decide +kernel
  have returns : popped.executed? .unlimited =
      some ⟨.ret, .absent, .absent, false, false⟩ := by
    decide +kernel
  have words : called.wordsAfter .unlimited (loaded.wordsAfter .unlimited []) = [0, 8] := by
    decide +kernel
  have run : StackRun loaded pushed [0, 8] := by
    rw [← words]
    have afterCall := StackRun.start.step .unlimited (sparesPointer_of_executed calls (by decide))
    exact afterCall.step .unlimited (sparesPointer_of_executed pushes (by decide))
  have added : (loaded.step .unlimited).result = .ok () ∧
      (called.step .unlimited).result = .ok () := by
    decide +kernel
  have adds : Instruction.stackAction ⟨.push, .registerDirect 1, .absent, false, false⟩
      called.fetched = .push 0 := by
    decide +kernel
  have balanced : Balanced called popped :=
    .nested pushes adds added.2 (.none pushed) pops rfl (by decide) (.none popped)
  have refines := (stack_refinesList accepted).2
  have returnsPast := (refines loaded [] .start).2.2 .unlimited
  have returned := returnsPast _ calls rfl added.1 popped balanced .unlimited _ returns rfl
  exact ⟨accepted, (refines pushed [0, 8] run).1, returned.2⟩

end RegisterMachine.Machine
