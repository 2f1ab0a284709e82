/-
This file says what an instruction prints and what becomes of it. A text reaches the output as a
whole, or as far as there is room for it.
-/

import RegisterMachine.Proofs.Machine.Screening

namespace RegisterMachine

namespace Sink

/-- A text that was written stands behind what the sink had before. -/
def extended (sink : Sink) (text : List UInt8) : Sink :=
  { sink with written := sink.written.appendList text }

@[simp] theorem extended_nil (sink : Sink) : sink.extended [] = sink := by
  simp [extended]

/-- What a sink makes of a text. It takes all of it, or as much as there is room for. -/
inductive Takes (sink : Sink) (text : List UInt8) : Sink → Except OutputError Unit → Prop
  | all (room : ∀ limit, sink.limit = some limit → text.length ≤ limit - sink.written.size) :
      Takes sink text (sink.extended text) (.ok ())
  | part (limit : Nat) (bounded : sink.limit = some limit)
      (short : limit - sink.written.size < text.length) :
      Takes sink text (sink.extended (text.take (limit - sink.written.size))) (.error .sinkFull)

theorem write_takes (sink : Sink) (text : List UInt8) :
    sink.Takes text (sink.write text).1 (sink.write text).2 := by
  obtain ⟨written, limit, flushFails⟩ := sink
  cases limit with
  | none => exact .all nofun
  | some limit =>
      unfold write
      dsimp only
      by_cases fits : text.length ≤ limit - written.size
      · rw [if_pos fits]
        refine .all ?_
        intro other bounded
        cases bounded
        exact fits
      · rw [if_neg fits]
        exact .part limit rfl (Nat.lt_of_not_le fits)

theorem write_ok {sink : Sink} {text : List UInt8} (taken : (sink.write text).2 = .ok ()) :
    (sink.write text).1 = sink.extended text := by
  have takes := sink.write_takes text
  rw [taken] at takes
  generalize (sink.write text).1 = after at takes ⊢
  cases takes
  rfl

/-- Output that is not limited takes every text. -/
theorem write_unlimited {sink : Sink} (unlimited : sink.limit = none) (text : List UInt8) :
    sink.write text = (sink.extended text, .ok ()) := by
  have takes := sink.write_takes text
  cases written : sink.write text with
  | mk after result =>
      rw [written] at takes
      cases takes with
      | all => rfl
      | part limit bounded =>
          rw [unlimited] at bounded
          cases bounded

/-- Every sink takes a text without bytes. -/
theorem write_nil (sink : Sink) : sink.write [] = (sink, .ok ()) := by
  have takes := sink.write_takes []
  cases written : sink.write [] with
  | mk after result =>
      rw [written] at takes
      cases takes with
      | all => exact congrArg (fun after => (after, Except.ok ())) sink.extended_nil
      | part limit bounded short => exact absurd short (Nat.not_lt_zero _)

end Sink

namespace Machine

/-- The text that an instruction prints: the lowest byte of a register, or the bytes up to the next
zero from an address that is given or that a register holds. -/
inductive Prints (machine : Machine) (instruction : Instruction) : List UInt8 → Prop
  | character (register : Register) (opcode : instruction.opcode = .printChr)
      (dest : instruction.dest = .registerDirect register.id) :
      Prints machine instruction [(machine.valueOf register).toUInt8]
  | textAt (address : UInt32) (opcode : instruction.opcode = .printStr)
      (dest : instruction.dest = .immediateAddress address)
      (inside : address.toNat < imageSize) :
      Prints machine instruction (machine.memory.textFrom address.toNat)
  | textOf (register : Register) (opcode : instruction.opcode = .printStr)
      (dest : instruction.dest = .registerIndirect register.id)
      (inside : (machine.valueOf register).toNat < imageSize) :
      Prints machine instruction (machine.memory.textFrom (machine.valueOf register).toNat)

/-- How an instruction that prints goes. It fails before it has a text, or its text goes to the
output. -/
inductive Printing (machine : Machine) (sink : Sink) (instruction : Instruction) : Outcome → Prop
  | refused (reason : Abort RuntimeError)
      (early : ∀ cause, reason ≠ .raised (.output cause)) :
      Printing machine sink instruction ⟨machine, sink, [], .error reason⟩
  | found (text : List UInt8) (log : List Diagnostic) (prints : machine.Prints instruction text) :
      Printing machine sink instruction (.ofOutput machine sink log text)

/-- A text that is found is the one that the instruction prints. -/
theorem foundText_ok {machine : Machine} {instruction : Instruction} {address : UInt32}
    {text : List UInt8} {terminated : Bool} (opcode : instruction.opcode = .printStr)
    (found : machine.foundText instruction = .ok (address, text, terminated)) :
    machine.Prints instruction text := by
  obtain ⟨place, located, found⟩ := bindOk found
  obtain ⟨⟨bytes, closed⟩, read, returned⟩ := bindOk found
  cases returned
  rw [Memory.readText_eq] at read
  split at read
  · rename_i inside
    have bytes : (machine.memory.textAt address.toNat).1 = text :=
      congrArg Prod.fst (Except.ok.inj read)
    rw [Memory.textAt_fst] at bytes
    rw [← bytes]
    unfold textAddress at located
    split at located
    · rename_i id indirect
      obtain ⟨register, rfl, rfl⟩ := readRegister_ok located
      exact .textOf register opcode indirect inside
    · rename_i given
      cases located
      exact .textAt address opcode given inside
    · cases located
  · cases read

theorem printCharacter_printing (machine : Machine) (sink : Sink) {instruction : Instruction}
    (opcode : instruction.opcode = .printChr) :
    machine.Printing sink instruction (machine.printCharacter sink instruction) := by
  have screened := instruction.destRegister_screened.bind fun id _ =>
    machine.readRegister_failsOnly id
  unfold printCharacter
  cases found : instruction.destRegister.bind machine.readRegister with
  | error reason =>
      refine .refused reason ?_
      rintro cause rfl
      exact screened.ne_output found cause rfl
  | ok value =>
      obtain ⟨id, dest, read⟩ := bindOk found
      obtain ⟨register, rfl, rfl⟩ := readRegister_ok read
      exact .found _ [] (.character register opcode (Instruction.destRegister_ok dest))

theorem printText_printing (machine : Machine) (sink : Sink) {instruction : Instruction}
    (opcode : instruction.opcode = .printStr) :
    machine.Printing sink instruction (machine.printText sink instruction) := by
  rw [printText_eq]
  cases found : machine.foundText instruction with
  | error reason =>
      refine .refused reason ?_
      rintro cause rfl
      exact (machine.foundText_screened instruction).ne_output found cause rfl
  | ok values =>
      obtain ⟨address, text, terminated⟩ := values
      exact .found text _ (foundText_ok opcode found)

end Machine

end RegisterMachine
