/-
This file proves that the machine executes the encoded form of a statement with exactly the effect
of the statement.
-/

import RegisterMachine.Proofs.Instruction.Codec
import RegisterMachine.Proofs.Machine.Output
import RegisterMachine.Proofs.Simulation.Statement

namespace RegisterMachine

open Source

namespace Source.Meaning

/-- The operand of a source that is read for its value. -/
def operand : Meaning → RegisterMachine.Operand
  | register named => .registerDirect named.id
  | number value => .immediateInt value
  | address place => .immediateAddress place

/-- The operand of a slot that takes an address. -/
def addressOperand : Meaning → RegisterMachine.Operand
  | register named => .registerIndirect named.id
  | number value => .immediateAddress value
  | address place => .immediateAddress place

end Source.Meaning

namespace Source.Statement

/-- The opcode and the operands that a statement is encoded with. -/
def located : Statement → Opcode × RegisterMachine.Operand × RegisterMachine.Operand
  | printCharacter source => (.printChr, .ofRegister source, .absent)
  | printText text => (.printStr, text.addressOperand, .absent)
  | move dest source => (.mov, .ofRegister dest, source.operand)
  | loadAddress dest source => (.loadAddr, .ofRegister dest, source.addressOperand)
  | compute operation dest source => (operation.opcode, .ofRegister dest, source.operand)
  | complement dest => (.not, .ofRegister dest, .absent)
  | compare => (.cmp, .absent, .absent)
  | jump condition target => (condition.opcode, .immediateAddress target, .absent)
  | call target => (.call, .immediateAddress target, .absent)
  | returnFromCall => (.ret, .absent, .absent)
  | push source => (.push, .ofRegister source, .absent)
  | pop dest => (.pop, .ofRegister dest, .absent)
  | halt => (.halt, .absent, .absent)

end Source.Statement

/-- An instruction is the encoded form of a statement, whatever its two marks. -/
structure Instruction.Encodes (instruction : Instruction) (statement : Statement) : Prop where
  opcode : instruction.opcode = statement.located.1
  dest : instruction.dest = statement.located.2.1
  src : instruction.src = statement.located.2.2

theorem Source.Meaning.operand_ne_absent (meaning : Meaning) : meaning.operand ≠ .absent := by
  cases meaning <;> simp [operand]

theorem Source.Meaning.addressOperand_ne_absent (meaning : Meaning) :
    meaning.addressOperand ≠ .absent := by
  cases meaning <;> simp [addressOperand]

theorem Source.Condition.opcode_slots (condition : Condition) :
    condition.opcode.slots = [.symbol] := by
  cases condition <;> rfl

/-- The encoded form of a statement has all its operands. -/
theorem Instruction.Encodes.complete {instruction : Instruction} {statement : Statement}
    (encodes : instruction.Encodes statement) : instruction.Complete := by
  obtain ⟨opcode, dest, src⟩ := encodes
  constructor
  · intro taken
    rw [opcode] at taken
    rw [dest]
    cases statement with
    | printText text => exact text.addressOperand_ne_absent
    | compare | returnFromCall | halt => exact absurd taken (by decide)
    | _ => exact fun absent => nomatch absent
  · intro taken
    rw [opcode] at taken
    rw [src]
    cases statement with
    | move dest source | compute operation dest source => exact source.operand_ne_absent
    | loadAddress dest source => exact source.addressOperand_ne_absent
    | jump condition target =>
        rw [Statement.located, Opcode.arity, condition.opcode_slots] at taken
        exact absurd taken (by decide)
    | _ => simp [Statement.located, Opcode.arity, Opcode.slots] at taken

namespace Machine

variable {machine : Machine} {instruction : Instruction}

theorem writeRegister_put (machine : Machine) (dest : Register) (value : UInt32) :
    machine.writeRegister dest.id value = (put machine dest value).mapError .raised := by
  rw [writeRegister_eq, put]
  by_cases isHp : dest = .hp
  · subst isHp
    rfl
  · rw [if_neg isHp, writableRegister_id isHp]
    rfl

theorem sourceValue_meaning (machine : Machine) {source : Meaning}
    (located : instruction.src = source.operand) :
    machine.sourceValue instruction = (source.value machine).mapError .raised := by
  unfold sourceValue
  rw [located]
  cases source with
  | register named => exact machine.readRegister_id named
  | number value => rfl
  | address place =>
      simp only [Meaning.operand, Meaning.value, Memory.readWord_eq]
      split
      · rfl
      · rfl

theorem check_first (address : UInt32) :
    Memory.check address 1 =
      if address.toNat < imageSize then .ok address
      else .error (.raised (.memoryOutOfBounds address)) := rfl

theorem sourceAddress_meaning {source : Meaning}
    (located : instruction.src = source.addressOperand) :
    machine.sourceAddress instruction =
      if (source.location machine).toNat < imageSize then .ok (source.location machine)
      else .error (.raised (.memoryOutOfBounds (source.location machine))) := by
  unfold sourceAddress
  rw [located]
  cases source with
  | register named =>
      simp only [Meaning.addressOperand, readRegister_id, okBind]
      exact check_first (machine.valueOf named)
  | number value => exact check_first value
  | address place => exact check_first place

theorem textAddress_meaning {text : Meaning} (located : instruction.dest = text.addressOperand) :
    machine.textAddress instruction = .ok (text.location machine) := by
  unfold textAddress
  rw [located]
  cases text with
  | register named => exact machine.readRegister_id named
  | number value => rfl
  | address place => rfl

theorem push_putOnStack (machine : Machine) (value : UInt32) :
    machine.push value = (putOnStack machine value).mapError .raised := by
  rw [push_eq, putOnStack, stackSlot]
  split
  · rfl
  · split
    · rfl
    · rfl

theorem pop_takeFromStack (machine : Machine) :
    machine.pop = (takeFromStack machine).mapError .raised := by
  rw [pop_eq, takeFromStack, stackSlot]
  split
  · rfl
  · rfl

/-- A sum or a difference overflows exactly if it is no number of a signed word. -/
theorem overflows_eq (value : Int) : overflows value = decide (¬Word.HoldsSigned value) := by
  rw [Bool.eq_iff_iff, overflows_iff, decide_eq_true_iff]

/-- The highest bit of a result is the sign of its signed reading. -/
theorem afterResult_eq (flags : Flags) (result : UInt32) :
    flags.afterResult result = resultFlags flags result := by
  simp only [Flags.afterResult, resultFlags, Word.signed_neg_iff]

/-- The signed readings of two words are equal exactly if the words are. -/
theorem compare_eq (machine : Machine) :
    machine.compare = { machine with flags := comparisonFlags machine } := by
  simp only [compare, comparisonFlags, Word.signed_inj]
  rfl

/-- The table of conditions is that of the flags that they name. -/
theorem condition_eq (flags : Flags) (condition : Condition) :
    Machine.condition flags condition.opcode = decide (condition.Holds flags) := by
  rw [Bool.eq_iff_iff, decide_eq_true_iff]
  cases condition <;> simp [Condition.opcode, Condition.Holds, Machine.condition]

theorem arithmeticResult_compute (operation : Operation) (flags : Flags) (left right : UInt32) :
    arithmeticResult operation.opcode flags left right =
      (operation.compute flags left right).mapError .raised := by
  cases operation with
  | add | sub =>
      simp only [Operation.opcode, arithmeticResult, Operation.compute, overflows_eq]
      rfl
  | mul | and | or => rfl
  | div | mod =>
      simp only [Operation.opcode, arithmeticResult, Operation.compute]
      split
      · rfl
      · rfl

theorem move_statement {dest : Register} {source : Meaning}
    (located : instruction.dest = .ofRegister dest) (read : instruction.src = source.operand) :
    machine.move instruction =
      ((Statement.move dest source).update machine).mapError .raised := by
  have value := machine.sourceValue_meaning read
  unfold move
  rw [destRegister_ofRegister located, okBind, value, Statement.update, read]
  cases source with
  | register | number | address =>
      simp only [Meaning.operand]
      cases Meaning.value machine _ with
      | error error => rfl
      | ok word => exact machine.writeRegister_put dest word

theorem loadAddress_statement {dest : Register} {source : Meaning}
    (located : instruction.dest = .ofRegister dest)
    (read : instruction.src = source.addressOperand) :
    machine.loadAddress instruction =
      ((Statement.loadAddress dest source).update machine).mapError .raised := by
  unfold loadAddress
  rw [destRegister_ofRegister located, okBind, sourceAddress_meaning read, Statement.update]
  by_cases inside : (source.location machine).toNat < imageSize
  · rw [if_pos inside, if_pos inside]
    exact machine.writeRegister_put dest _
  · rw [if_neg inside, if_neg inside]
    rfl

theorem storeResult_put (machine : Machine) (dest : Register) (result : UInt32) :
    machine.storeResult dest.id result =
      (put { machine with flags := resultFlags machine.flags result } dest result).mapError
        .raised := by
  rw [storeResult, writeRegister_put, put, put, ← afterResult_eq]
  by_cases isHp : dest = .hp
  · rw [if_pos isHp, if_pos isHp]
    rfl
  · rw [if_neg isHp, if_neg isHp]
    rfl

theorem complement_statement {dest : Register}
    (located : instruction.dest = .ofRegister dest) :
    machine.complement instruction =
      ((Statement.complement dest).update machine).mapError .raised := by
  unfold complement
  rw [destRegister_ofRegister located, okBind, readRegister_id, okBind]
  exact machine.storeResult_put dest _

theorem compare_statement (machine : Machine) :
    .ok machine.compare = (Statement.compare.update machine).mapError Abort.raised :=
  congrArg Except.ok machine.compare_eq

theorem halt_statement (machine : Machine) :
    .ok { machine with status := .halted } =
      (Statement.halt.update machine).mapError Abort.raised := rfl

theorem jump_statement (machine : Machine) {condition : Condition} {target : UInt32}
    (opcode : instruction.opcode = condition.opcode)
    (located : instruction.dest = .immediateAddress target) :
    machine.jump instruction =
      ((Statement.jump condition target).update machine).mapError .raised := by
  have found : machine.jumpTarget instruction = .ok target := by
    rw [jumpTarget, located]
  rw [jump, found, okBind, opcode, condition_eq, Statement.update]
  simp only [decide_eq_true_eq]
  rfl

theorem call_statement {target : UInt32} (located : instruction.dest = .immediateAddress target) :
    machine.call instruction = ((Statement.call target).update machine).mapError .raised := by
  have found : machine.jumpTarget instruction = .ok target := by
    rw [jumpTarget, located]
  rw [call, found, okBind, push_putOnStack, Statement.update]
  cases putOnStack machine machine.pc with
  | error error => rfl
  | ok after => rfl

theorem returnFromCall_statement :
    machine.returnFromCall = (Statement.returnFromCall.update machine).mapError .raised := by
  rw [returnFromCall, pop_takeFromStack, Statement.update]
  cases takeFromStack machine with
  | error error => rfl
  | ok taken => rfl

theorem pushRegister_statement {source : Register}
    (located : instruction.dest = .ofRegister source) :
    machine.pushRegister instruction =
      ((Statement.push source).update machine).mapError .raised := by
  rw [pushRegister, destRegister_ofRegister located, okBind, readRegister_id, okBind]
  exact machine.push_putOnStack _

theorem popRegister_statement {dest : Register} (located : instruction.dest = .ofRegister dest) :
    machine.popRegister instruction =
      ((Statement.pop dest).update machine).mapError .raised := by
  rw [popRegister, destRegister_ofRegister located, okBind, Statement.update]
  by_cases isHp : dest = .hp
  · subst isHp
    rfl
  · rw [writableRegister_id isHp, okBind, if_neg isHp, pop_takeFromStack]
    cases takeFromStack machine with
    | error error => rfl
    | ok taken => exact taken.2.writeRegister_put dest taken.1

end Machine

/-- An outcome is that of an effect: the machine after it with what the sink made of the text, or
the error with the sink as it was. -/
def Outcome.Matches (sink : Sink) (outcome : Outcome) :
    Except RuntimeError (Machine × List UInt8) → Prop
  | .ok (after, text) =>
      outcome.result = (sink.write text).2.mapError (fun reason => .raised (.output reason)) ∧
        outcome.machine = after ∧ outcome.sink = (sink.write text).1
  | .error error => outcome.result = .error (.raised error) ∧ outcome.sink = sink

namespace Machine

/-- An update without output has the effect that it computes. -/
theorem ofUpdate_matches {machine : Machine} (sink : Sink)
    {updated : Except (Abort RuntimeError) Machine} {effect : Except RuntimeError Machine}
    (same : updated = effect.mapError .raised) :
    (Outcome.ofUpdate machine sink updated).Matches sink
      (do return (← effect, ([] : List UInt8))) := by
  rw [same]
  cases effect with
  | error error => exact ⟨rfl, rfl⟩
  | ok after =>
      simp only [okBind, pureOk, Outcome.Matches, Sink.write_nil]
      exact ⟨rfl, rfl, rfl⟩

theorem ofOutput_matches (machine : Machine) (sink : Sink) (log : List Diagnostic)
    (text : List UInt8) :
    (Outcome.ofOutput machine sink log text).Matches sink (.ok (machine, text)) :=
  ⟨rfl, rfl, rfl⟩

variable {machine : Machine} {instruction : Instruction} {sink : Sink}

theorem printCharacter_matches {source : Register}
    (located : instruction.dest = .ofRegister source) :
    (machine.printCharacter sink instruction).Matches sink
      ((Statement.printCharacter source).effect machine) := by
  have found : instruction.destRegister.bind machine.readRegister =
      .ok (machine.valueOf source) := by
    rw [destRegister_ofRegister located]
    exact machine.readRegister_id source
  unfold printCharacter
  rw [found]
  exact machine.ofOutput_matches sink [] _

theorem printText_matches {text : Meaning}
    (located : instruction.dest = text.addressOperand) :
    (machine.printText sink instruction).Matches sink
      ((Statement.printText text).effect machine) := by
  rw [printText_eq, foundText, textAddress_meaning located, okBind, Memory.readText_eq,
    Statement.effect, Statement.printed]
  by_cases inside : (text.location machine).toNat < imageSize
  · rw [if_pos inside, if_pos inside, ← Memory.textAt_fst]
    exact machine.ofOutput_matches sink _ _
  · rw [if_neg inside, if_neg inside]
    exact ⟨rfl, rfl⟩

theorem arithmetic_matches (machine : Machine) (sink : Sink) {operation : Operation}
    {dest : Register} {source : Meaning}
    (opcode : instruction.opcode = operation.opcode)
    (located : instruction.dest = .ofRegister dest) (read : instruction.src = source.operand) :
    (machine.arithmetic sink instruction).Matches sink
      ((Statement.compute operation dest source).effect machine) := by
  have right := machine.sourceValue_meaning read
  have effect : (Statement.compute operation dest source).effect machine =
      (do
        let after ← (Statement.compute operation dest source).update machine
        return (after, ([] : List UInt8))) := rfl
  rw [arithmetic_eq, effect, Machine.operation, destRegister_ofRegister located, okBind, right,
    Statement.update]
  cases source.value machine with
  | error error => exact ⟨rfl, rfl⟩
  | ok word =>
      simp only [Except.mapError, okBind, readRegister_id, opcode, arithmeticResult_compute]
      cases operation.compute machine.flags (machine.valueOf dest) word with
      | error error => exact ⟨rfl, rfl⟩
      | ok values =>
          obtain ⟨result, flags⟩ := values
          exact ofUpdate_matches sink (storeResult_put _ dest result)

/-- The encoded form of a statement is executed with the effect of the statement. -/
theorem execute_matches (machine : Machine) (sink : Sink) {statement : Statement}
    (encodes : instruction.Encodes statement) :
    (machine.execute sink instruction).Matches sink (statement.effect machine) := by
  unfold execute
  cases statement with
  | printCharacter source =>
      have opcode : instruction.opcode = .printChr := encodes.opcode
      rw [opcode]
      exact printCharacter_matches encodes.dest
  | printText text =>
      have opcode : instruction.opcode = .printStr := encodes.opcode
      rw [opcode]
      exact printText_matches encodes.dest
  | move dest source =>
      have opcode : instruction.opcode = .mov := encodes.opcode
      rw [opcode]
      exact ofUpdate_matches sink (move_statement encodes.dest encodes.src)
  | loadAddress dest source =>
      have opcode : instruction.opcode = .loadAddr := encodes.opcode
      rw [opcode]
      exact ofUpdate_matches sink (loadAddress_statement encodes.dest encodes.src)
  | compute operation dest source =>
      have opcode : instruction.opcode = operation.opcode := encodes.opcode
      have computed := machine.arithmetic_matches sink opcode encodes.dest encodes.src
      rw [opcode]
      cases operation <;> exact computed
  | complement dest =>
      have opcode : instruction.opcode = .not := encodes.opcode
      rw [opcode]
      exact ofUpdate_matches sink (complement_statement encodes.dest)
  | compare =>
      have opcode : instruction.opcode = .cmp := encodes.opcode
      rw [opcode]
      exact ofUpdate_matches sink machine.compare_statement
  | jump condition target =>
      have opcode : instruction.opcode = condition.opcode := encodes.opcode
      have jumped := machine.jump_statement opcode encodes.dest
      rw [opcode]
      cases condition <;> exact ofUpdate_matches sink jumped
  | call target =>
      have opcode : instruction.opcode = .call := encodes.opcode
      rw [opcode]
      exact ofUpdate_matches sink (call_statement encodes.dest)
  | returnFromCall =>
      have opcode : instruction.opcode = .ret := encodes.opcode
      rw [opcode]
      exact ofUpdate_matches sink returnFromCall_statement
  | push source =>
      have opcode : instruction.opcode = .push := encodes.opcode
      rw [opcode]
      exact ofUpdate_matches sink (pushRegister_statement encodes.dest)
  | pop dest =>
      have opcode : instruction.opcode = .pop := encodes.opcode
      rw [opcode]
      exact ofUpdate_matches sink (popRegister_statement encodes.dest)
  | halt =>
      have opcode : instruction.opcode = .halt := encodes.opcode
      rw [opcode]
      exact ofUpdate_matches sink machine.halt_statement

end Machine

end RegisterMachine
