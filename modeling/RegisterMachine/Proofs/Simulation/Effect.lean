/-
This file says which errors a statement can raise and where it leads the program counter.
-/

import RegisterMachine.Proofs.Simulation.Execution

namespace RegisterMachine

open Source

/-- Errors that are left to a program whose instructions are as the assembler encodes them. -/
def RuntimeError.ofProgram : RuntimeError → Bool
  | pcOutOfBounds _ | stackOverflow | stackUnderflow | memoryOutOfBounds _ | divideByZero
  | illegalOperation _ | fuelExhausted _ => true
  | invalidBytecode _ | invalidInstruction _ | opcodeNotFound _ | heapOutOfBounds _
  | registerNotFound _ | invalidAddressingMode _ _ | output _ => false

open RuntimeError (ofProgram)

namespace Source

/-- A computation that raises errors of one kind only. -/
def RaisesOnly {α : Type} (kind : RuntimeError → Bool) (computation : Except RuntimeError α) :
    Prop :=
  ∀ error, computation = .error error → kind error

namespace RaisesOnly

variable {α β : Type} {kind : RuntimeError → Bool}

theorem ok (value : α) : RaisesOnly kind (.ok value) := by
  intro error raised
  cases raised

theorem error {raised : RuntimeError} (known : kind raised) :
    RaisesOnly kind (.error raised : Except RuntimeError α) := by
  intro error same
  cases same
  exact known

/-- A sequence raises what its parts raise. -/
theorem bind {first : Except RuntimeError α} {next : α → Except RuntimeError β}
    (firstRaises : RaisesOnly kind first)
    (nextRaises : ∀ value, first = .ok value → RaisesOnly kind (next value)) :
    RaisesOnly kind (first >>= next) := by
  intro error raised
  cases found : first with
  | error reason =>
      rw [found] at raised
      cases raised
      exact firstRaises _ found
  | ok value =>
      rw [found] at raised
      exact nextRaises value found error raised

end RaisesOnly

theorem put_raises (machine : Machine) (dest : Register) (value : UInt32) :
    RaisesOnly ofProgram (put machine dest value) := by
  unfold put
  split
  · exact .error rfl
  · exact .ok _

theorem putOnStack_raises (machine : Machine) (value : UInt32) :
    RaisesOnly ofProgram (putOnStack machine value) := by
  unfold putOnStack
  split
  · exact .error rfl
  · split
    · exact .ok _
    · exact .error rfl

theorem takeFromStack_raises (machine : Machine) :
    RaisesOnly ofProgram (takeFromStack machine) := by
  unfold takeFromStack
  split
  · exact .ok _
  · exact .error rfl

theorem Meaning.value_raises (machine : Machine) (source : Meaning) :
    RaisesOnly ofProgram (source.value machine) := by
  unfold value
  split
  · exact .ok _
  · exact .ok _
  · split
    · exact .ok _
    · exact .error rfl

theorem Operation.compute_raises (operation : Operation) (flags : Flags) (left right : UInt32) :
    RaisesOnly ofProgram (operation.compute flags left right) := by
  cases operation with
  | add | sub | mul | and | or => exact .ok _
  | div | mod =>
      simp only [compute]
      split
      · exact .error rfl
      · exact .ok _

namespace Statement

theorem update_raises (machine : Machine) (statement : Statement) :
    RaisesOnly ofProgram (statement.update machine) := by
  cases statement with
  | printCharacter | printText | compare | jump | halt => exact .ok _
  | move dest source => exact .bind (source.value_raises machine) fun _ _ => put_raises _ _ _
  | loadAddress dest source =>
      simp only [update]
      split
      · exact put_raises _ _ _
      · exact .error rfl
  | compute operation dest source =>
      exact .bind (source.value_raises machine) fun _ _ =>
        .bind (operation.compute_raises _ _ _) fun _ _ => put_raises _ _ _
  | complement dest => exact put_raises _ _ _
  | call target => exact .bind (putOnStack_raises _ _) fun _ _ => .ok _
  | returnFromCall => exact .bind (takeFromStack_raises _) fun _ _ => .ok _
  | push source => exact putOnStack_raises _ _
  | pop dest =>
      simp only [update]
      split
      · exact .error rfl
      · exact .bind (takeFromStack_raises _) fun _ _ => put_raises _ _ _

theorem printed_raises (machine : Machine) (statement : Statement) :
    RaisesOnly ofProgram (statement.printed machine) := by
  unfold printed
  split
  · exact .ok _
  · dsimp only
    split
    · exact .ok _
    · exact .error rfl
  · exact .ok _

/-- A statement raises no error about the form of an instruction. -/
theorem effect_raises (machine : Machine) (statement : Statement) :
    RaisesOnly ofProgram (statement.effect machine) :=
  .bind (statement.printed_raises machine) fun _ _ =>
    .bind (statement.update_raises machine) fun _ _ => .ok _

/-- Where a jump or a call leads. -/
def target? : Statement → Option UInt32
  | jump _ target | call target => some target
  | _ => none

theorem put_pc {machine after : Machine} {dest : Register} {value : UInt32}
    (stored : put machine dest value = .ok after) : after.pc = machine.pc := by
  unfold put at stored
  split at stored
  · cases stored
  · cases stored
    rfl

theorem putOnStack_pc {machine after : Machine} {value : UInt32}
    (stored : putOnStack machine value = .ok after) : after.pc = machine.pc := by
  unfold putOnStack at stored
  split at stored
  · cases stored
  · split at stored
    · cases stored
      rfl
    · cases stored

theorem takeFromStack_pc {machine after : Machine} {value : UInt32}
    (taken : takeFromStack machine = .ok (value, after)) : after.pc = machine.pc := by
  unfold takeFromStack at taken
  split at taken
  · rw [← (Prod.mk.inj (Except.ok.inj taken)).2]
  · cases taken

/-- Only jumps, calls and returns lead anywhere but to the next instruction. -/
theorem update_pc {machine after : Machine} {statement : Statement}
    (done : statement.update machine = .ok after) (stays : statement ≠ .returnFromCall) :
    after.pc = machine.pc ∨ statement.target? = some after.pc := by
  cases statement with
  | printCharacter | printText | compare | halt =>
      cases done
      exact .inl rfl
  | move dest source =>
      obtain ⟨_, _, stored⟩ := bindOk done
      exact .inl (put_pc stored)
  | loadAddress dest source =>
      simp only [update] at done
      split at done
      · exact .inl (put_pc done)
      · cases done
  | compute operation dest source =>
      obtain ⟨_, _, done⟩ := bindOk done
      obtain ⟨⟨_, _⟩, _, stored⟩ := bindOk done
      have same := put_pc stored
      exact .inl same
  | complement dest =>
      have same := put_pc done
      exact .inl same
  | jump condition target =>
      cases done
      split
      · exact .inr rfl
      · exact .inl rfl
  | call target =>
      obtain ⟨_, _, returned⟩ := bindOk done
      cases returned
      exact .inr rfl
  | returnFromCall => exact absurd rfl stays
  | push source => exact .inl (putOnStack_pc done)
  | pop dest =>
      simp only [update] at done
      split at done
      · cases done
      · obtain ⟨⟨_, shrunk⟩, taken, stored⟩ := bindOk done
        exact .inl ((put_pc stored).trans (takeFromStack_pc taken))

theorem effect_update {machine after : Machine} {statement : Statement} {text : List UInt8}
    (done : statement.effect machine = .ok (after, text)) :
    statement.update machine = .ok after := by
  obtain ⟨_, _, done⟩ := bindOk done
  obtain ⟨_, updated, returned⟩ := bindOk done
  cases returned
  exact updated

end Statement

/-- A statement keeps the opcode of its instruction and leads where the first operand does. -/
theorem Instruction.statement?_some {interner : Interner} {lines : List Line}
    {source : Source.Instruction} {statement : Statement}
    (means : source.statement? interner lines = some statement) :
    statement.located.1 = source.opcode ∧
      ∀ target, statement.target? = some target →
        source.operands.first.target? interner lines = some target := by
  unfold statement? at means
  cases opcode : source.opcode <;> rw [opcode] at means
  case printChr | printStr | not | push | pop =>
    obtain ⟨_, _, same⟩ := Option.map_eq_some_iff.mp means
    rw [← same]
    exact ⟨rfl, fun _ leads => nomatch leads⟩
  case mov | loadAddr | add | sub | mul | div | mod | and | or =>
    obtain ⟨_, _, means⟩ := Option.bind_eq_some_iff.mp means
    obtain ⟨_, _, same⟩ := Option.bind_eq_some_iff.mp means
    rw [← Option.some.inj same]
    exact ⟨rfl, fun _ leads => nomatch leads⟩
  case cmp | ret | halt =>
    rw [← Option.some.inj means]
    exact ⟨rfl, fun _ leads => nomatch leads⟩
  case jz | jnz | jeq | jgt | jge | jlt | jle | jmp | call =>
    obtain ⟨_, found, same⟩ := Option.map_eq_some_iff.mp means
    rw [← same]
    refine ⟨rfl, fun target leads => ?_⟩
    rw [← Option.some.inj leads]
    exact found

end Source

end RegisterMachine
