/-
This file compares the two ways to a word of memory: a move reads it at once, and a load of its
address leaves the reading to a second move. Both go to the same address and fail alike, although
the load of an address checks one byte where the move checks four.
-/

import RegisterMachine.Proofs.Machine.Arithmetic
import RegisterMachine.Proofs.Machine.Bookkeeping
import RegisterMachine.Proofs.Machine.Fetch

namespace RegisterMachine

/-- The parts of an instruction that have an effect; its marks have none. -/
structure Instruction.Is (instruction : Instruction) (opcode : Opcode) (dest : Register)
    (src : Operand) : Prop where
  opcode : instruction.opcode = opcode
  dest : instruction.dest = .ofRegister dest
  src : instruction.src = src

namespace Machine

/-- The outcome of instructions that follow each other, up to the first that fails. -/
def executeAll (machine : Machine) (sink : Sink) : List Instruction → Outcome
  | [] => ⟨machine, sink, [], .ok ()⟩
  | instruction :: rest =>
      let outcome := machine.fetched.execute sink instruction
      match outcome.result with
      | .ok () =>
          let later := executeAll outcome.machine outcome.sink rest
          { later with log := outcome.log ++ later.log }
      | .error _ => outcome

/-- An operand in memory leads to an address, or to an error that comes before any access. -/
inductive Locates (machine : Machine) : Operand → Except (Abort RuntimeError) UInt32 → Prop
  | immediate (address : UInt32) : Locates machine (.immediateAddress address) (.ok address)
  | indirect (id : UInt8) : Locates machine (.registerIndirect id) (machine.readRegister id)
  | offset (base : UInt8) (offset : UInt32) :
      Locates machine (.baseOffset base offset) (machine.baseOffset base offset)

/-- The errors of an id that names no register and of an address outside the image. -/
inductive AddressError : Abort RuntimeError → Prop
  | register (id : UInt8) : AddressError (.raised (.registerNotFound id))
  | memory (address : UInt32) : AddressError (.raised (.memoryOutOfBounds address))

/-- Two machines differ in the program counter and in the listed registers at most. -/
structure AgreesExcept (others : List Register) (left right : Machine) : Prop where
  registers : ∀ register, register ∉ others → left.valueOf register = right.valueOf register
  flags : left.flags = right.flags
  memory : left.memory = right.memory
  books : left.bookkeeping = right.bookkeeping

/-- What a move from memory has in common with a load of the address and a move from there. -/
structure SameWord (machine : Machine) (sink : Sink) (source : Operand) (dest scratch : Register)
    (direct through : Outcome) : Prop where
  result : through.result = direct.result
  failures : ∀ reason, direct.result = .error reason → AddressError reason
  succeeds : ∀ address, machine.Locates source (.ok address) → address.toNat + 4 ≤ imageSize →
    direct.result = .ok ()
  word : direct.result = .ok () → ∃ address, machine.Locates source (.ok address) ∧
    direct.machine.valueOf dest = machine.memory.wordAt address.toNat ∧
    through.machine.valueOf dest = machine.memory.wordAt address.toNat ∧
    (scratch ≠ dest → through.machine.valueOf scratch = address)
  others : direct.result = .ok () → AgreesExcept [dest] direct.machine machine ∧
    AgreesExcept [dest, scratch] through.machine machine
  sinks : direct.sink = sink ∧ through.sink = sink

theorem AgreesExcept.assign {others : List Register} {left right : Machine}
    (agrees : AgreesExcept others left right) (register : Register) (value : UInt32) :
    AgreesExcept (register :: others) (left.assign register value) right where
  registers other apart := by
    obtain ⟨different, apart⟩ := not_or.mp (mt List.mem_cons.mpr apart)
    rw [valueOf_assign_ne left value (Ne.symm different)]
    exact agrees.registers other apart
  flags := agrees.flags
  memory := agrees.memory
  books := agrees.books

theorem AgreesExcept.fetched {others : List Register} {left right : Machine}
    (agrees : AgreesExcept others left right) : AgreesExcept others left.fetched right :=
  ⟨agrees.registers, agrees.flags, agrees.memory, agrees.books⟩

theorem AgreesExcept.refl (machine : Machine) : AgreesExcept [] machine machine :=
  ⟨fun _ _ => rfl, rfl, rfl, rfl⟩

/-- An offset is added to its base as a signed word. -/
theorem toNat_add_signed (base offset : UInt32)
    (low : 0 ≤ (base.toNat : Int) + offset.toInt32.toInt)
    (high : (base.toNat : Int) + offset.toInt32.toInt < 0x100000000) :
    ((base + offset).toNat : Int) = base.toNat + offset.toInt32.toInt := by
  have word := offset.toNat_lt
  rw [UInt32.toNat_add]
  rw [Word.signed_eq] at low high ⊢
  split at low <;> split <;> omega

section Locations

variable {machine : Machine} {instruction : Instruction} {source : Operand}
  {located : Except (Abort RuntimeError) UInt32}

theorem baseOffset_ok {base : UInt8} {offset address : UInt32}
    (found : machine.baseOffset base offset = .ok address) : address.toNat < imageSize := by
  obtain ⟨value, _, found⟩ := bindOk found
  dsimp only at found
  split at found
  · rename_i inside
    cases found
    rw [imageSize_eq] at inside ⊢
    have sum := toNat_add_signed value offset inside.1 (by omega)
    omega
  · cases found

theorem readRegister_failure {id : UInt8} {reason : Abort RuntimeError}
    (failed : machine.readRegister id = .error reason) : AddressError reason := by
  rw [readRegister_eq] at failed
  split at failed
  · cases failed
  · cases failed
    exact .register id

theorem locates_of_mode (machine : Machine)
    (inMemory : source.mode = .immediateAddress ∨ source.mode = .registerIndirect ∨
      source.mode = .baseOffset) : ∃ located, machine.Locates source located := by
  cases source with
  | immediateAddress address => exact ⟨_, .immediate address⟩
  | registerIndirect id => exact ⟨_, .indirect id⟩
  | baseOffset base offset => exact ⟨_, .offset base offset⟩
  | registerDirect | immediateInt | pcRelative | absent =>
      rcases inMemory with mode | mode | mode <;> cases mode

namespace Locates

variable (locates : machine.Locates source located)
include locates

theorem failure {reason : Abort RuntimeError} (failed : located = .error reason) :
    AddressError reason := by
  cases locates with
  | immediate => cases failed
  | indirect id => exact readRegister_failure failed
  | offset base offset =>
      unfold baseOffset at failed
      cases read : machine.readRegister base with
      | error cause =>
          rw [read] at failed
          cases failed
          exact readRegister_failure read
      | ok value =>
          rw [read, okBind] at failed
          dsimp only at failed
          split at failed
          · cases failed
          · cases failed
            exact .memory _

theorem sourceValue (src : instruction.src = source) :
    machine.sourceValue instruction = located >>= machine.memory.readWord := by
  unfold Machine.sourceValue
  rw [src]
  cases locates <;> rfl

/-- The sum of a base and an offset is inside the image, so the check of a byte adds nothing. -/
theorem sourceAddress (src : instruction.src = source) :
    machine.sourceAddress instruction = located >>= fun address => Memory.check address 1 := by
  unfold Machine.sourceAddress
  rw [src]
  cases locates with
  | immediate | indirect => rfl
  | offset base offset =>
      dsimp only
      cases found : machine.baseOffset base offset with
      | error reason => rfl
      | ok address =>
          have first : address.toNat + 1 ≤ imageSize := baseOffset_ok found
          rw [okBind, Memory.check_eq, if_pos first]

end Locates

theorem bind_writeRegister (machine : Machine) {register : Register} (writable : register ≠ .hp)
    (read : Except (Abort RuntimeError) UInt32) :
    (read >>= machine.writeRegister register.id) = read.map (machine.assign register) := by
  cases read with
  | error reason => rfl
  | ok value =>
      rw [okBind, writeRegister_eq, writableRegister_id writable]
      rfl

namespace Locates

variable {register : Register} (locates : machine.Locates source located) (sink : Sink)
include locates

/-- A move from memory puts the word at the address into its destination. -/
theorem execute_move (writable : register ≠ .hp) (is : instruction.Is .mov register source) :
    machine.execute sink instruction = .ofUpdate machine sink
      ((located >>= machine.memory.readWord).map (machine.assign register)) := by
  have moves : machine.move instruction =
      machine.sourceValue instruction >>= machine.writeRegister register.id := by
    unfold move
    rw [destRegister_ofRegister is.dest, okBind, is.src]
    cases locates <;> rfl
  unfold execute
  rw [is.opcode, ← locates.sourceValue is.src, ← bind_writeRegister machine writable, ← moves]

theorem execute_loadAddress (writable : register ≠ .hp)
    (is : instruction.Is .loadAddr register source) :
    machine.execute sink instruction = .ofUpdate machine sink
      ((located >>= fun address => Memory.check address 1).map (machine.assign register)) := by
  have loads : machine.loadAddress instruction =
      machine.sourceAddress instruction >>= machine.writeRegister register.id := by
    unfold loadAddress
    rw [destRegister_ofRegister is.dest, okBind]
  unfold execute
  rw [is.opcode, ← locates.sourceAddress is.src, ← bind_writeRegister machine writable, ← loads]

end Locates

end Locations

section Sequences

variable {machine after : Machine} {sink : Sink} {instruction : Instruction}
  {rest : List Instruction} {reason : Abort RuntimeError}

/-- An address does not depend on the program counter. -/
theorem Locates.of_fetched {source : Operand} {located : Except (Abort RuntimeError) UInt32}
    (locates : machine.fetched.Locates source located) : machine.Locates source located := by
  cases locates with
  | immediate address => exact .immediate address
  | indirect id => exact .indirect id
  | offset base offset => exact .offset base offset

theorem Locates.unique {source : Operand} {first second : Except (Abort RuntimeError) UInt32}
    (locates : machine.Locates source first) (again : machine.Locates source second) :
    first = second := by
  cases locates <;> cases again <;> rfl

theorem executeAll_ok
    (executed : machine.fetched.execute sink instruction =
      .ofUpdate machine.fetched sink (.ok after)) :
    machine.executeAll sink (instruction :: rest) = after.executeAll sink rest := by
  rw [executeAll, executed]
  rfl

theorem executeAll_error
    (executed : machine.fetched.execute sink instruction =
      .ofUpdate machine.fetched sink (.error reason)) :
    machine.executeAll sink (instruction :: rest) = ⟨machine.fetched, sink, [], .error reason⟩ := by
  rw [executeAll, executed]
  rfl

namespace SameWord

variable {source : Operand} {dest scratch : Register} {address : UInt32}

/-- Two ways that end in the same error have all in common that is asked of them. -/
theorem failed {first second : Machine} (known : AddressError reason)
    (misses : ∀ address, machine.Locates source (.ok address) → ¬address.toNat + 4 ≤ imageSize) :
    machine.SameWord sink source dest scratch ⟨first, sink, [], .error reason⟩
      ⟨second, sink, [], .error reason⟩ where
  result := rfl
  failures cause failed := by
    cases failed
    exact known
  succeeds address locates whole := absurd whole (misses address locates)
  word succeeded := by cases succeeded
  others succeeded := by cases succeeded
  sinks := ⟨rfl, rfl⟩

/-- The way through the scratch register leaves the address there, if it is not overwritten. -/
theorem found (destWritable : dest ≠ .hp) (scratchWritable : scratch ≠ .hp)
    (locates : machine.Locates source (.ok address)) :
    let word := machine.memory.wordAt address.toNat
    machine.SameWord sink source dest scratch
      ⟨machine.fetched.assign dest word, sink, [], .ok ()⟩
      ⟨(machine.fetched.assign scratch address).fetched.assign dest word, sink, [], .ok ()⟩ where
  result := rfl
  failures reason failed := by cases failed
  succeeds _ _ _ := rfl
  word _ := by
    refine ⟨address, locates, valueOf_assign _ _ destWritable, valueOf_assign _ _ destWritable, ?_⟩
    intro different
    exact (valueOf_assign_ne _ _ (Ne.symm different)).trans
      (machine.fetched.valueOf_assign address scratchWritable)
  others _ := ⟨(AgreesExcept.refl machine).fetched.assign dest _,
    ((AgreesExcept.refl machine).fetched.assign scratch address).fetched.assign dest _⟩
  sinks := ⟨rfl, rfl⟩

end SameWord

/-- A move from memory and a load of the address with a move from there find the same word at the
same address, or fail with the same error. -/
theorem executeAll_move_through (machine : Machine) (sink : Sink) {source : Operand}
    {dest scratch : Register} {direct load follow : Instruction}
    (inMemory : source.mode = .immediateAddress ∨ source.mode = .registerIndirect ∨
      source.mode = .baseOffset)
    (destWritable : dest ≠ .hp) (scratchWritable : scratch ≠ .hp)
    (isDirect : direct.Is .mov dest source) (isLoad : load.Is .loadAddr scratch source)
    (isFollow : follow.Is .mov dest (.registerIndirect scratch.id)) :
    machine.SameWord sink source dest scratch (machine.executeAll sink [direct])
      (machine.executeAll sink [load, follow]) := by
  obtain ⟨located, locates⟩ := machine.fetched.locates_of_mode inMemory
  have moves := locates.execute_move sink destWritable isDirect
  have loads := locates.execute_loadAddress sink scratchWritable isLoad
  cases located with
  | error reason =>
      rw [executeAll_error moves, executeAll_error loads]
      refine .failed (locates.failure rfl) ?_
      intro address elsewhere
      cases locates.of_fetched.unique elsewhere
  | ok address =>
      let loaded := machine.fetched.assign scratch address
      have held : loaded.fetched.valueOf scratch = address :=
        machine.fetched.valueOf_assign address scratchWritable
      have behind : loaded.fetched.Locates (.registerIndirect scratch.id) (.ok address) := by
        have indirect : loaded.fetched.Locates _ (loaded.fetched.readRegister scratch.id) :=
          .indirect scratch.id
        rwa [readRegister_id, held] at indirect
      have follows := behind.execute_move sink destWritable isFollow
      -- The move checks the whole word, the load only its first byte.
      by_cases whole : address.toNat + 4 ≤ imageSize
      · have first : address.toNat + 1 ≤ imageSize := by omega
        rw [okBind, Memory.readWord_eq, if_pos whole] at moves follows
        rw [okBind, Memory.check_eq, if_pos first] at loads
        rw [executeAll_ok moves, executeAll_ok loads, executeAll_ok follows]
        exact .found destWritable scratchWritable locates.of_fetched
      · have misses : ∀ other, machine.Locates source (.ok other) →
            ¬other.toNat + 4 ≤ imageSize := by
          intro other elsewhere
          rwa [← Except.ok.inj (locates.of_fetched.unique elsewhere)]
        rw [okBind, Memory.readWord_eq, if_neg whole] at moves follows
        rw [executeAll_error moves]
        by_cases first : address.toNat + 1 ≤ imageSize
        · rw [okBind, Memory.check_eq, if_pos first] at loads
          rw [executeAll_ok loads, executeAll_error follows]
          exact .failed (.memory address) misses
        · rw [okBind, Memory.check_eq, if_neg first] at loads
          rw [executeAll_error loads]
          exact .failed (.memory address) misses

/-- In the last bytes of the image it is not the load that fails but the move behind it. -/
theorem executeAll_move_through_lastBytes :
    let machine := (Machine.empty none).assign .r1 0x500002
    let source : Operand := .baseOffset 1 0xFFFFFFFC
    machine.SameWord .unlimited source .r1 .r1
      (machine.executeAll .unlimited [⟨.mov, .registerDirect 1, source, false, false⟩])
      (machine.executeAll .unlimited [⟨.loadAddr, .registerDirect 1, source, false, false⟩,
        ⟨.mov, .registerDirect 1, .registerIndirect 1, false, false⟩]) :=
  executeAll_move_through _ _ (.inr (.inr rfl)) (by decide) (by decide) ⟨rfl, rfl, rfl⟩
    ⟨rfl, rfl, rfl⟩ ⟨rfl, rfl, rfl⟩

end Sequences

end Machine

end RegisterMachine
