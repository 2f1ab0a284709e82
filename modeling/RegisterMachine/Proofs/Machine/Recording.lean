/-
This file says what the record of a run shows: one line for each instruction that was fetched and
decoded, in the order of the steps, and one last line for how the run ended.
-/

import RegisterMachine.Proofs.Machine.Stepping
import RegisterMachine.Proofs.Machine.Upcoming

namespace RegisterMachine

/-- An output that can be flushed stays so when it is written to. -/
theorem Sink.write_flush (sink : Sink) (text : List UInt8) :
    (sink.write text).1.flush = sink.flush := by
  unfold write
  cases sink.limit with
  | none => rfl
  | some limit =>
      dsimp only
      split <;> rfl

/-- Output that can be flushed leaves the answer of a run as it is. -/
theorem Progress.ended_result {progress : Progress} (flushes : progress.sink.flush = .ok ())
    (record : Bool) : (progress.ended record).result = progress.result := by
  unfold ended
  rw [flushes]
  cases progress.result <;> rfl

namespace Machine

/-- The instructions that a number of steps fetch and decode, each with its address. -/
def fetchedBy (machine : Machine) (sink : Sink) (count : Nat) : List (UInt32 × Instruction) :=
  (List.range count).filterMap fun earlier =>
    let before := (machine.walk sink earlier).machine
    before.upcoming?.map fun instruction => (before.pc, instruction)

/-- The address of an instruction and its disassembly. -/
def instructionLine (fetched : UInt32 × Instruction) : String :=
  Text.address fetched.1.toNat ++ "  " ++ fetched.2.text

section Flushing

variable (machine : Machine) (sink : Sink)

theorem execute_flush (instruction : Instruction) :
    (machine.execute sink instruction).sink.flush = sink.flush := by
  have handled := machine.execute_handled sink instruction
  generalize machine.execute sink instruction = outcome at handled ⊢
  cases handled with
  | printCharacter opcode =>
      unfold printCharacter
      split
      · rfl
      · exact sink.write_flush _
  | printText opcode =>
      rw [printText_eq]
      split
      · rfl
      · exact sink.write_flush _
  | arithmetic computes =>
      rw [arithmetic_eq]
      split
      · rfl
      · unfold Outcome.ofUpdate
        split <;> rfl
  | update updates =>
      unfold Outcome.ofUpdate
      split <;> rfl

theorem step_flush : (machine.step sink).sink.flush = sink.flush := by
  by_cases running : machine.IsRunning
  · rw [step_running machine sink running]
    have cases := machine.attempt_cases sink
    generalize machine.attempt sink = progress at cases ⊢
    cases cases with
    | exhausted | unlimited | refused => rfl
    | failed instruction | done instruction =>
        exact machine.prepared.execute_flush sink instruction
  · rw [(step_stopped machine sink running).2]

theorem walk_flush (count : Nat) : (machine.walk sink count).sink.flush = sink.flush := by
  induction count with
  | zero => rfl
  | succ count inductionHypothesis =>
      rw [walk_succ]
      exact (step_flush _ _).trans inductionHypothesis

end Flushing

section Lines

variable {machine : Machine} {sink : Sink}

/-- One step more fetches at most one instruction more. -/
theorem fetchedBy_succ (count : Nat) :
    machine.fetchedBy sink (count + 1) =
      machine.fetchedBy sink count ++
        ((machine.walk sink count).machine.upcoming?.map fun instruction =>
          ((machine.walk sink count).machine.pc, instruction)).toList := by
  unfold fetchedBy
  rw [List.range_succ, List.filterMap_append]
  cases found : (machine.walk sink count).machine.upcoming? <;> simp [found]

/-- As long as the machine runs, it shows the instructions that it fetches. -/
theorem walk_trace (coherent : Coherent machine) {count : Nat}
    (running : ∀ earlier, earlier ≤ count →
      (machine.walk sink earlier).machine.status = .running) :
    (machine.walk sink count).trace.map TraceEvent.text =
      (machine.fetchedBy sink count).map instructionLine := by
  induction count with
  | zero => rfl
  | succ count inductionHypothesis =>
      have coherentBefore := walk_coherent coherent sink count
      have after := running (count + 1) (Nat.le_refl _)
      rw [walk_succ] at after ⊢
      obtain ⟨instruction, found, shown⟩ := step_shows coherentBefore
        (running count (Nat.le_succ count)) after
      rw [fetchedBy_succ, List.map_append, List.map_append, found, shown,
        inductionHypothesis fun earlier within => running earlier (Nat.le_succ_of_le within)]
      rfl

/-- The last line of a record, after the instructions. A run that succeeds ends with the address of
the halt that was fetched last, and a run that fails with its fault, which is either that of the
instruction fetched last or, if the last step fetched none, a want of fuel or a failed fetch. -/
inductive Closes (last : Machine) (ended : Progress) : String → Prop
  | halted (instruction : Instruction) (found : last.upcoming? = some instruction)
      (opcode : instruction.opcode = .halt) (result : ended.result = .ok ()) :
      Closes last ended ("halted at " ++ Text.address last.pc.toNat)
  | failed (instruction : Instruction) (fault : Fault)
      (found : last.upcoming? = some instruction) (cause : fault.error.ofExecution)
      (result : ended.result = .error (.raised fault)) :
      Closes last ended (s!"fault [{fault.error.code.number}]: " ++ fault.message)
  | refused (fault : Fault) (nothing : last.upcoming? = none)
      (cause : fault.error.ofFetch ∨ ∃ limit, fault.error = .fuelExhausted limit)
      (result : ended.result = .error (.raised fault)) :
      Closes last ended (s!"fault [{fault.error.code.number}]: " ++ fault.message)

/-- The step that stops the machine adds its instruction, if it fetched one, and the last line. -/
theorem walk_closes (coherent : Coherent machine) {count : Nat}
    (stops : machine.StopsAt sink (count + 1)) (flushes : sink.flush = .ok ()) :
    let ended := (machine.walk sink (count + 1)).ended true
    ∃ closing, Closes (machine.walk sink count).machine ended closing ∧
      ended.trace.map TraceEvent.text =
        (machine.fetchedBy sink (count + 1)).map instructionLine ++ [closing] := by
  intro ended
  have running (earlier : Nat) (within : earlier ≤ count) :
      (machine.walk sink earlier).machine.status = .running :=
    stops.running earlier (Nat.lt_succ_of_le within)
  have coherentBefore := walk_coherent coherent sink count
  have runningBefore := coherentBefore.isRunning_iff.mpr (running count (Nat.le_refl count))
  have result : ended.result = (machine.walk sink (count + 1)).machine.verdict := by
    rw [Progress.ended_result ((machine.walk_flush sink (count + 1)).trans flushes), walk_succ]
  have lines : ended.trace.map TraceEvent.text =
      (machine.fetchedBy sink count).map instructionLine ++
        ((machine.walk sink count).machine.step (machine.walk sink count).sink).trace.map
          TraceEvent.text := by
    rw [← walk_trace coherent running, ← List.map_append]
    change (machine.walk sink (count + 1)).trace.map _ = _
    rw [walk_succ]
  have stopped := stops.stopped
  rw [walk_succ] at result stopped
  simp only [lines, fetchedBy_succ, List.map_append, List.append_assoc]
  cases step_shown coherentBefore runningBefore (machine.walk sink count).sink with
  | wentOn _ _ runs => exact absurd runs stopped
  | halted instruction found opcode _ noFault trace =>
      rw [verdict, noFault] at result
      rw [found, trace]
      exact ⟨_, .halted instruction found opcode result, rfl⟩
  | failed instruction fault found cause recorded trace =>
      rw [verdict, recorded] at result
      rw [found, trace]
      exact ⟨_, .failed instruction fault found cause result, rfl⟩
  | refused fault nothing cause recorded trace =>
      rw [verdict, recorded] at result
      rw [nothing, trace]
      exact ⟨_, .refused fault nothing cause result, rfl⟩

end Lines

theorem walk_session {held : Option Container} {machine : Machine}
    (session : Session held machine) (sink : Sink) (count : Nat) :
    Session held (machine.walk sink count).machine := by
  induction count with
  | zero => exact session
  | succ count inductionHypothesis =>
      rw [walk_succ]
      exact .step _ inductionHypothesis

/-- An instruction that a machine of a host fetches is decoded from the loaded code. -/
theorem Session.upcoming_loaded {held : Option Container} {machine : Machine}
    (session : Session held machine) {instruction : Instruction}
    (found : machine.upcoming? = some instruction) :
    ∃ container, held = some container ∧
      machine.pc.toNat + Instruction.byteSize ≤ container.code.length ∧
      Instruction.decode? ((container.code.drop machine.pc.toNat).take Instruction.byteSize) =
        some (.ok instruction) := by
  have next := nextInstruction_of_upcoming? found
  have intact := session.intact
  cases held with
  | none =>
      have inside := (nextInstruction_inside next).1
      have nothing : machine.codeEnd.toNat = 0 := intact.codeEnd
      omega
  | some container => exact ⟨container, rfl, (intact.nextInstruction_ok instruction).mp next⟩

/-- What the record of a run that ended shows. The run itself is the one without a record. A machine
that had stopped shows nothing. A machine that ran shows, for the steps that it took, the address
and the disassembly of each instruction that was fetched, and then one last line; these instructions
are decoded from eight bytes of the loaded code. -/
structure Recorded (held : Option Container) (machine : Machine) (sink : Sink)
    (ended : Progress) : Prop where
  untraced : ∀ plain, machine.RunsTo sink false plain ↔ plain = { ended with trace := [] }
  idle : machine.status ≠ .running → ended.trace = []
  lines : machine.status = .running → ∃ count closing, machine.StopsAt sink (count + 1) ∧
    Closes (machine.walk sink count).machine ended closing ∧
    ended.trace.map TraceEvent.text =
      (machine.fetchedBy sink (count + 1)).map instructionLine ++ [closing]
  loaded : ∀ count, ∀ fetched ∈ machine.fetchedBy sink count, ∃ container,
    held = some container ∧
      fetched.1.toNat + Instruction.byteSize ≤ container.code.length ∧
      Instruction.decode? ((container.code.drop fetched.1.toNat).take Instruction.byteSize) =
        some (.ok fetched.2)

/-- In every session the record of a run is faithful and complete. -/
theorem session_recorded {held : Option Container} {machine : Machine}
    (session : Session held machine) {sink : Sink} (flushes : sink.flush = .ok ())
    {ended : Progress} (ends : machine.RunsTo sink true ended) :
    Recorded held machine sink ended where
  untraced plain := by
    obtain ⟨count, stopped, rfl⟩ := (runsTo_iff session.coherent).mp ends
    -- One walk ends both runs, of which only the recorded one keeps the trace.
    have untraced : machine.RunsTo sink false ((machine.walk sink count).ended false) :=
      (runsTo_iff session.coherent).mpr ⟨count, stopped, rfl⟩
    constructor
    · intro plainly
      exact plainly.unique session.coherent untraced
    · rintro rfl
      exact untraced
  idle stopped := by
    obtain ⟨count, _, rfl⟩ := (runsTo_iff session.coherent).mp ends
    rw [walk_stopped fun running => stopped running.status]
    rfl
  lines running := by
    obtain ⟨steps, run⟩ := ends
    obtain ⟨count, within, stops⟩ := exists_stopsAt session.coherent run
    rw [run_ends session.coherent stops within true] at run
    cases run
    cases count with
    | zero => exact absurd running stops.stopped
    | succ count =>
        obtain ⟨closing, closes, lines⟩ := walk_closes session.coherent stops flushes
        exact ⟨count, closing, stops, closes, lines⟩
  loaded count fetched member := by
    obtain ⟨earlier, _, found⟩ := List.mem_filterMap.mp member
    obtain ⟨instruction, upcoming, rfl⟩ := Option.map_eq_some_iff.mp found
    exact (walk_session session sink earlier).upcoming_loaded upcoming

/-- A pop from the empty stack is the last instruction of the record, before its fault. -/
theorem session_recorded_pop :
    let container := Container.ofSections
      ⟨[0x02, 1, 0, 5, 0, 0, 0, 0x02, 0x19, 1, 0, 0, 0, 0, 0, 0], [], []⟩ 0
    let machine := (empty none).started container
    Session (some container) machine ∧
      machine.fetchedBy .unlimited 2 =
        [(0, ⟨.mov, .registerDirect 1, .immediateInt 5, false, false⟩),
          (8, ⟨.pop, .registerDirect 1, .absent, false, false⟩)] ∧
      ∃ ended, machine.RunsTo .unlimited true ended ∧
        Recorded (some container) machine .unlimited ended := by
  intro container machine
  have accepted : (Container.ofLoadable container.toBytes).value = .ok container := by
    decide +kernel
  have loaded : ((empty none).load container.toBytes).value = .ok machine := by
    rw [load_eq, accepted]
  have session : Session (some container) machine :=
    .load container.toBytes container (.empty none) accepted loaded
  have stopped : (machine.walk .unlimited 2).machine.status ≠ .running := by decide +kernel
  have ends : machine.RunsTo .unlimited true ((machine.walk .unlimited 2).ended true) :=
    (runsTo_iff session.coherent).mpr ⟨2, stopped, rfl⟩
  exact ⟨session, by decide +kernel, _, ends, session_recorded session rfl ends⟩

end Machine

end RegisterMachine
