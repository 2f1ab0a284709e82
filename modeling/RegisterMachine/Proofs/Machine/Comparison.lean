/-
This file follows the flags of a comparison to the conditional jump that reads them. Whatever else is
executed in between, the jump compares the two numbers that were in the first registers.
-/

import RegisterMachine.Proofs.Machine.SuccessfulStep

namespace RegisterMachine

/-- The comparison of two numbers that a conditional jump is named for. -/
def Opcode.comparison? : Opcode → Option (Int → Int → Bool)
  | jz | jeq => some fun left right => left = right
  | jnz => some fun left right => left ≠ right
  | jgt => some fun left right => right < left
  | jge => some fun left right => right ≤ left
  | jlt => some fun left right => left < right
  | jle => some fun left right => left ≤ right
  | printChr | printStr | mov | loadAddr | add | sub | mul | div | mod | and | or | not | cmp | jmp
  | call | ret | push | pop | halt => none

theorem Opcode.jumps_of_comparison? {opcode : Opcode} {holds : Int → Int → Bool}
    (kind : opcode.comparison? = some holds) : opcode.jumps := by
  cases opcode <;> first | rfl | cases kind

/-- The flags of comparisons tell how two numbers compare. -/
structure Flags.Compare (flags : Flags) (left right : Int) : Prop where
  zero : flags.zero = decide (left = right)
  negative : flags.negative = decide (left < right)

/-- With such flags the condition of a jump is its comparison. -/
theorem Flags.Compare.condition {flags : Flags} {left right : Int}
    (compare : flags.Compare left right) {opcode : Opcode} {holds : Int → Int → Bool}
    (kind : opcode.comparison? = some holds) :
    Machine.condition flags opcode = holds left right := by
  obtain ⟨zero, negative⟩ := compare
  cases opcode <;> cases kind <;>
    simp only [Machine.condition, zero, negative] <;> grind

namespace Machine

/-- A comparison is of the signed readings of the first two registers. -/
theorem compare_flags (machine : Machine) :
    machine.compare.flags.Compare (machine.valueOf .r0).toInt32.toInt
      (machine.valueOf .r1).toInt32.toInt := by
  constructor <;> simp [compare, valueOf, Register.id, Register.ctorIdx]

/-- A jump that has a target goes there or on to the next instruction. -/
theorem execute_jump {machine : Machine} {instruction : Instruction} {target : UInt32}
    (sink : Sink) (jumps : instruction.opcode.jumps)
    (leads : machine.jumpTarget instruction = .ok target) :
    machine.execute sink instruction =
      .ofUpdate machine sink (.ok (if condition machine.flags instruction.opcode then
        { machine with pc := target } else machine)) := by
  have jumped : machine.jump instruction =
      .ok (if condition machine.flags instruction.opcode then { machine with pc := target }
        else machine) := by
    rw [jump, leads, okBind]
    rfl
  rw [← jumped, execute]
  cases opcode : instruction.opcode <;> rw [opcode] at jumps <;> first | rfl | cases jumps

/-- A step that succeeds in executing an instruction which neither compares nor has a result of
arithmetic or logic. -/
structure SparesComparison (machine : Machine) (sink : Sink) : Prop where
  running : machine.status = .running
  succeeded : (machine.step sink).result = .ok ()
  opcode : ∀ instruction, machine.nextInstruction = .ok instruction →
    instruction.opcode.setsResult = false ∧ instruction.opcode ≠ .cmp

theorem SparesComparison.of_next {machine : Machine} {sink : Sink} {instruction : Instruction}
    (running : machine.status = .running) (succeeded : (machine.step sink).result = .ok ())
    (next : machine.nextInstruction = .ok instruction)
    (noResult : instruction.opcode.setsResult = false) (noComparison : instruction.opcode ≠ .cmp) :
    machine.SparesComparison sink where
  running := running
  succeeded := succeeded
  opcode other found := by
    rw [next] at found
    cases found
    exact ⟨noResult, noComparison⟩

/-- A machine without a fault whose flags tell how two numbers compare. -/
structure Compared (left right : Int) (machine : Machine) : Prop where
  fault : machine.fault = none
  flags : machine.flags.Compare left right

section Steps

variable {machine after : Machine} {sink : Sink} {left right : Int}

theorem Compared.of_compare {instruction : Instruction} (running : machine.status = .running)
    (next : machine.nextInstruction = .ok instruction) (opcode : instruction.opcode = .cmp)
    (succeeded : (machine.step sink).result = .ok ()) :
    Compared (machine.valueOf .r0).toInt32.toInt (machine.valueOf .r1).toInt32.toInt
      (machine.step sink).machine := by
  obtain ⟨noFault, executed, found, _, same⟩ := step_ok running succeeded
  rw [next] at found
  cases found
  rw [same, execute, opcode]
  exact ⟨noFault, machine.prepared.compare_flags⟩

theorem Compared.step (compared : Compared left right machine)
    (spares : machine.SparesComparison sink) :
    Compared left right (machine.step sink).machine := by
  obtain ⟨noFault, instruction, next, result, same⟩ := step_ok spares.running spares.succeeded
  obtain ⟨noResult, noComparison⟩ := spares.opcode instruction next
  have kept := (execute_executed result).flags noResult noComparison
  obtain ⟨_, fault, _⟩ := machine.prepared.execute_books sink instruction
  rw [same]
  refine ⟨fault.trans noFault, ?_⟩
  rw [kept]
  exact compared.flags

/-- No sequence of such steps changes how the numbers compare. -/
theorem Compared.steppedBy (compared : Compared left right machine)
    (between : SteppedBy SparesComparison machine after) : Compared left right after := by
  induction between with
  | start => exact compared
  | step sink _ spares inductionHypothesis => exact inductionHypothesis.step spares

end Steps

/-- A conditional jump goes to its target exactly if its comparison holds of the signed numbers
that the last comparison found in the first two registers, and to the next instruction
otherwise. -/
theorem jump_comparesSigned {machine after : Machine} {sink : Sink}
    {comparison jump : Instruction} {holds : Int → Int → Bool} {target : UInt32} (last : Sink)
    (running : machine.status = .running) (next : machine.nextInstruction = .ok comparison)
    (opcode : comparison.opcode = .cmp) (succeeded : (machine.step sink).result = .ok ())
    (between : SteppedBy SparesComparison (machine.step sink).machine after)
    (goesOn : after.status = .running) (fuelled : after.fuel ≠ some 0)
    (follows : after.nextInstruction = .ok jump) (kind : jump.opcode.comparison? = some holds)
    (leads : after.prepared.jumpTarget jump = .ok target) :
    let left := (machine.valueOf .r0).toInt32.toInt
    let right := (machine.valueOf .r1).toInt32.toInt
    (after.step last).result = .ok () ∧
      (holds left right = true → (after.step last).machine.pc = target) ∧
      (holds left right = false → (after.step last).machine.pc.toNat = after.pc.toNat + 8) := by
  intro left right
  have compared : Compared left right after :=
    (Compared.of_compare running next opcode succeeded).steppedBy between
  have decided : condition after.prepared.flags jump.opcode = holds left right :=
    compared.flags.condition kind
  have executed := execute_jump last (Opcode.jumps_of_comparison? kind) leads
  have done : (after.prepared.execute last jump).result = .ok () := by rw [executed]; rfl
  obtain ⟨result, same⟩ := step_executes ⟨goesOn, compared.fault⟩ fuelled follows done
  rw [decided] at executed
  refine ⟨result, ?_, ?_⟩
  · intro taken
    rw [same, executed, taken]
    rfl
  · intro missed
    rw [same, executed, missed]
    exact fetched_pc follows

/-- The register of a number that was compared can be overwritten and pushed before the jump. -/
theorem jump_comparesSigned_overwritten :
    let code := [0x0D, 0, 0, 0, 0, 0, 0, 0, 0x02, 0, 0, 5, 0, 0, 0, 0x02,
      0x18, 0, 0, 0, 0, 0, 0, 0, 0x13, 0, 0, 0x28, 0, 0, 0, 0x20]
    let machine := ((ofCode code).assign .r0 0xFFFFFFFF).assign .r1 1
    let compared := (machine.step .unlimited).machine
    let moved := (compared.step .unlimited).machine
    let pushed := (moved.step .unlimited).machine
    SteppedBy SparesComparison compared pushed ∧ pushed.valueOf .r0 = 5 ∧
      (pushed.step .unlimited).machine.pc = 0x28 := by
  intro code machine compared moved pushed
  have moves : compared.nextInstruction =
      .ok ⟨.mov, .registerDirect 0, .immediateInt 5, false, false⟩ := by
    decide +kernel
  have pushes : moved.nextInstruction =
      .ok ⟨.push, .registerDirect 0, .absent, false, false⟩ := by
    decide +kernel
  have jumps : pushed.nextInstruction =
      .ok ⟨.jlt, .immediateAddress 0x28, .absent, false, false⟩ := by
    decide +kernel
  have between : SteppedBy SparesComparison compared pushed :=
    .step .unlimited
      (.step .unlimited .start
        (.of_next (by decide +kernel) (by decide +kernel) moves rfl (by decide)))
      (.of_next (by decide +kernel) (by decide +kernel) pushes rfl (by decide))
  have compares : machine.nextInstruction = .ok ⟨.cmp, .absent, .absent, false, false⟩ := by
    decide +kernel
  have jumped := jump_comparesSigned .unlimited rfl compares rfl (by decide +kernel)
    between (by decide +kernel) (by decide +kernel) jumps rfl rfl
  exact ⟨between, by decide +kernel, jumped.2.1 (by decide)⟩

end Machine

end RegisterMachine
