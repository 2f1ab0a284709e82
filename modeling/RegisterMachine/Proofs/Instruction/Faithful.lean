/-
This file says for which instructions the encoding loses nothing. Operands past the arity and two
different words are refused, but an operand that is missing is encoded as the first register.
-/

import RegisterMachine.Defect
import RegisterMachine.Proofs.Instruction.Codec

namespace RegisterMachine.Instruction

/-- Both operands need the shared word, and they need it to be different. -/
def Conflicts (instruction : Instruction) : Prop :=
  ∃ first second, instruction.dest.immediate? = some first ∧
    instruction.src.immediate? = some second ∧ first ≠ second

/-- An instruction with a faithful form of eight bytes has as many operands as its opcode takes, and
they agree on the shared word. -/
structure Representable (instruction : Instruction) : Prop where
  complete : instruction.Complete
  within : instruction.WithinArity
  agree : ¬instruction.Conflicts

/-- Nothing is lost of an instruction: its encoding is decoded to it, and if it has no faithful form
there is no encoding. -/
structure Faithful (instruction : Instruction) : Prop where
  decodes : ∀ bytes, instruction.encode = .ok bytes → decode? bytes = some (.ok instruction)
  refuses : ¬instruction.Representable → ∃ error, instruction.encode = .error error

/-- The first register in the place of an operand that is missing. -/
def fill (used : Bool) (operand : Operand) : Operand :=
  if used && operand = .absent then .registerDirect Register.r0.id else operand

/-- The instruction with the first register for each operand that is missing. -/
def filled (instruction : Instruction) : Instruction :=
  { instruction with
    dest := fill (0 < instruction.opcode.arity) instruction.dest
    src := fill (1 < instruction.opcode.arity) instruction.src }

theorem fill_present (operand : Operand) : fill true operand ≠ .absent := by
  unfold fill
  split
  · exact Operand.noConfusion
  · rename_i present
    simpa using present

theorem fill_eq_self {used : Bool} {operand : Operand} :
    fill used operand = operand ↔ (used → operand ≠ .absent) := by
  cases used with
  | false => simp [fill]
  | true =>
      constructor
      · intro same _ absent
        exact fill_present operand (same.trans absent)
      · intro present
        simp [fill, present rfl]

/-- A missing operand and the first register have the same fields. -/
theorem fill_fields (used : Bool) (operand : Operand) :
    (fill used operand).mode.bits = operand.mode.bits ∧
      (fill used operand).idByte = operand.idByte ∧
      (fill used operand).immediate? = operand.immediate? := by
  unfold fill
  split
  · rename_i missing
    rw [Bool.and_eq_true, decide_eq_true_iff] at missing
    rw [missing.2]
    exact ⟨rfl, rfl, rfl⟩
  · exact ⟨rfl, rfl, rfl⟩

variable (instruction : Instruction)

theorem filled_complete : instruction.filled.Complete where
  dest (used : 0 < instruction.opcode.arity) := by
    rw [filled, decide_eq_true used]
    exact fill_present _
  src (used : 1 < instruction.opcode.arity) := by
    rw [filled, decide_eq_true used]
    exact fill_present _

theorem filled_eq_self : instruction.filled = instruction ↔ instruction.Complete := by
  obtain ⟨opcode, dest, src, global, sourceImmediate⟩ := instruction
  simp only [filled, mk.injEq, fill_eq_self, decide_eq_true_iff, true_and, and_true]
  exact ⟨fun both => ⟨both.1, both.2⟩, fun complete => ⟨complete.dest, complete.src⟩⟩

theorem filled_withinArity (within : instruction.WithinArity) :
    instruction.filled.WithinArity where
  dest (unused : instruction.opcode.arity ≤ 0) := by
    rw [filled, decide_eq_false (Nat.not_lt_of_le unused), within.dest unused]
    rfl
  src (unused : instruction.opcode.arity ≤ 1) := by
    rw [filled, decide_eq_false (Nat.not_lt_of_le unused), within.src unused]
    rfl

/-- The encoder does not tell a missing operand from the first register. -/
theorem filled_encode (within : instruction.WithinArity) :
    instruction.filled.encode = instruction.encode := by
  obtain ⟨destMode, destId, destWord⟩ := fill_fields (0 < instruction.opcode.arity) instruction.dest
  obtain ⟨srcMode, srcId, srcWord⟩ := fill_fields (1 < instruction.opcode.arity) instruction.src
  have shared : instruction.filled.sharedImmediate = instruction.sharedImmediate := by
    simp only [sharedImmediate, filled, destWord, srcWord]
  rw [encode, encode, toSlot, toSlot,
    if_pos (all_absent_iff.mpr (instruction.filled_withinArity within)),
    if_pos (all_absent_iff.mpr within), shared]
  simp only [filled, destMode, srcMode, destId, srcId]

theorem encode_pastArity (past : ¬instruction.WithinArity) :
    instruction.encode = .error (.operandCount instruction.opcode) := by
  rw [encode, toSlot, if_neg (mt all_absent_iff.mp past)]
  rfl

theorem sharedImmediate_conflict (conflicts : instruction.Conflicts) :
    instruction.sharedImmediate = .error (.immediateConflict instruction.opcode) := by
  obtain ⟨first, second, dest, src, different⟩ := conflicts
  rw [sharedImmediate, dest, src]
  exact if_neg different

theorem sharedImmediate_agree (agree : ¬instruction.Conflicts) :
    ∃ immediate, instruction.sharedImmediate = .ok immediate := by
  unfold sharedImmediate
  cases dest : instruction.dest.immediate? <;> cases src : instruction.src.immediate?
  case some.some first second =>
    by_cases same : first = second
    · exact ⟨first, if_pos same⟩
    · exact absurd ⟨first, second, dest, src, same⟩ agree
  all_goals exact ⟨_, rfl⟩

theorem encode_conflict (within : instruction.WithinArity) (conflicts : instruction.Conflicts) :
    instruction.encode = .error (.immediateConflict instruction.opcode) := by
  rw [encode, toSlot, if_pos (all_absent_iff.mpr within),
    instruction.sharedImmediate_conflict conflicts]
  rfl

/-- All other instructions have an encoding, and that is decoded to the instruction with its missing
operands filled in. -/
theorem encode_decodes (within : instruction.WithinArity) (agree : ¬instruction.Conflicts) :
    ∃ bytes, instruction.encode = .ok bytes ∧ decode? bytes = some (.ok instruction.filled) := by
  obtain ⟨immediate, shared⟩ := instruction.sharedImmediate_agree agree
  have encoded : ∃ bytes, instruction.encode = .ok bytes := by
    rw [encode, toSlot, if_pos (all_absent_iff.mpr within), shared]
    exact ⟨_, rfl⟩
  obtain ⟨bytes, encoded⟩ := encoded
  refine ⟨bytes, encoded, ?_⟩
  rw [← instruction.filled_encode within] at encoded
  exact decode?_encode instruction.filled_complete encoded

theorem faithful_refused {error : EncodeError} (refused : instruction.encode = .error error) :
    instruction.Faithful := by
  refine ⟨fun bytes encoded => ?_, fun _ => ⟨error, refused⟩⟩
  rw [refused] at encoded
  cases encoded

/-- The encoding loses nothing exactly if no operand is missing or the instruction is refused for
another reason. What it accepts is decoded with the first register for each missing operand. -/
theorem encode_faithful_iff :
    (instruction.Faithful ↔
      instruction.Complete ∨ ¬instruction.WithinArity ∨ instruction.Conflicts) ∧
    (¬instruction.WithinArity →
      instruction.encode = .error (.operandCount instruction.opcode)) ∧
    (instruction.WithinArity → instruction.Conflicts →
      instruction.encode = .error (.immediateConflict instruction.opcode)) ∧
    (instruction.WithinArity → ¬instruction.Conflicts →
      ∃ bytes, instruction.encode = .ok bytes ∧
        decode? bytes = some (.ok instruction.filled)) := by
  refine ⟨⟨?_, ?_⟩, instruction.encode_pastArity, instruction.encode_conflict,
    instruction.encode_decodes⟩
  · intro faithful
    by_cases within : instruction.WithinArity
    · by_cases conflicts : instruction.Conflicts
      · exact .inr (.inr conflicts)
      · -- What is accepted is decoded to the instruction and to the one that is filled in.
        obtain ⟨bytes, encoded, decoded⟩ := instruction.encode_decodes within conflicts
        rw [faithful.decodes bytes encoded] at decoded
        have same := Except.ok.inj (Option.some.inj decoded)
        exact .inl (instruction.filled_eq_self.mp same.symm)
    · exact .inr (.inl within)
  · intro sound
    by_cases within : instruction.WithinArity
    · by_cases conflicts : instruction.Conflicts
      · exact instruction.faithful_refused (instruction.encode_conflict within conflicts)
      · have complete : instruction.Complete := by simpa [within, conflicts] using sound
        refine ⟨fun bytes => decode?_encode complete, ?_⟩
        intro other
        exact absurd ⟨complete, within, conflicts⟩ other
    · exact instruction.faithful_refused (instruction.encode_pastArity within)

/-- A push without its operand is encoded as a push of the first register. -/
theorem push_unfaithful : ¬Faithful ⟨.push, .absent, .absent, false, false⟩ := by
  intro faithful
  have decoded := faithful.decodes [0x18, 0, 0, 0, 0, 0, 0, 0] rfl
  cases decoded

end RegisterMachine.Instruction
