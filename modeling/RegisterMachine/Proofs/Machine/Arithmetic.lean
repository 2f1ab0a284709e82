/-
This file says what arithmetic computes. Results, carries and overflows are exact facts about the
integers that the operands stand for, read without a sign and with one.
-/

import RegisterMachine.Proofs.Machine.Failure

namespace RegisterMachine

namespace Word

/-- The signed reading of a word. -/
theorem signed_eq (word : UInt32) :
    word.toInt32.toInt =
      if 2 * word.toNat < 0x100000000 then (word.toNat : Int) else word.toNat - 0x100000000 :=
  BitVec.toInt_eq_toNat_cond word.toBitVec

/-- A word has a negative reading exactly if its highest bit is set. -/
theorem signed_neg_iff (word : UInt32) : word.toInt32.toInt < 0 ↔ 0x80000000 ≤ word.toNat := by
  have bound := word.toNat_lt
  rw [signed_eq]
  split <;> omega

/-- Words with the same signed reading are the same. -/
theorem signed_inj {left right : UInt32} :
    left.toInt32.toInt = right.toInt32.toInt ↔ left = right := by
  rw [Int32.toInt_inj]
  exact ⟨congrArg Int32.toUInt32, congrArg UInt32.toInt32⟩

/-- The integers that have a signed word. -/
def HoldsSigned (value : Int) : Prop :=
  -0x80000000 ≤ value ∧ value < 0x80000000

instance (value : Int) : Decidable (HoldsSigned value) :=
  inferInstanceAs (Decidable (_ ∧ _))

end Word

/-- What an operation on two words stores, and the carry and overflow that it leaves. -/
inductive Opcode.Yields (flags : Flags) (left right result : UInt32) : Opcode → Bool → Bool → Prop
  | sum {carry overflow : Bool}
      (exact : left.toNat + right.toNat = result.toNat + 0x100000000 * carry.toNat)
      (signed : overflow = true ↔
        ¬Word.HoldsSigned (left.toInt32.toInt + right.toInt32.toInt))
      (fits : overflow = false →
        result.toInt32.toInt = left.toInt32.toInt + right.toInt32.toInt) :
      Yields flags left right result .add carry overflow
  | difference {carry overflow : Bool}
      (exact : (left.toNat : Int) - right.toNat = result.toNat - 0x100000000 * carry.toNat)
      (signed : overflow = true ↔
        ¬Word.HoldsSigned (left.toInt32.toInt - right.toInt32.toInt))
      (fits : overflow = false →
        result.toInt32.toInt = left.toInt32.toInt - right.toInt32.toInt) :
      Yields flags left right result .sub carry overflow
  | product (exact : result.toNat = left.toNat * right.toNat % 0x100000000) :
      Yields flags left right result .mul flags.carry flags.overflow
  | quotient (remainder : Nat)
      (exact : left.toNat = result.toNat * right.toNat + remainder)
      (small : remainder < right.toNat) :
      Yields flags left right result .div flags.carry flags.overflow
  | remainder (quotient : Nat) (exact : left.toNat = quotient * right.toNat + result.toNat)
      (small : result.toNat < right.toNat) :
      Yields flags left right result .mod flags.carry flags.overflow
  | conjunction (exact : result.toNat = left.toNat &&& right.toNat) :
      Yields flags left right result .and flags.carry flags.overflow
  | disjunction (exact : result.toNat = left.toNat ||| right.toNat) :
      Yields flags left right result .or flags.carry flags.overflow

namespace Machine

section Results

variable (flags : Flags) (left right : UInt32)

theorem overflows_iff (value : Int) : overflows value = true ↔ ¬Word.HoldsSigned value := by
  simp only [overflows, Word.HoldsSigned, Bool.or_eq_true, decide_eq_true_eq]
  omega

/-- A result without overflow is not changed when it becomes a signed word. -/
theorem wrapped_of_fits {value : Int} (fits : overflows value = false) :
    value.bmod 0x100000000 = value := by
  simp only [overflows, Bool.or_eq_false_iff, decide_eq_false_iff_not] at fits
  exact Int.bmod_eq_of_le (by omega) (by omega)

theorem sum_yields :
    Opcode.Yields flags left right (left + right) .add
      (decide (0x100000000 ≤ left.toNat + right.toNat))
      (overflows (left.toInt32.toInt + right.toInt32.toInt)) := by
  have leftBound := left.toNat_lt
  have rightBound := right.toNat_lt
  refine .sum ?_ (overflows_iff _) ?_
  · rw [UInt32.toNat_add]
    by_cases carries : 0x100000000 ≤ left.toNat + right.toNat
    · rw [decide_eq_true carries, Bool.toNat_true]
      omega
    · rw [decide_eq_false carries, Bool.toNat_false]
      omega
  · intro fits
    exact (Int32.toInt_add left.toInt32 right.toInt32).trans (wrapped_of_fits fits)

theorem difference_yields :
    Opcode.Yields flags left right (left - right) .sub (decide (left.toNat < right.toNat))
      (overflows (left.toInt32.toInt - right.toInt32.toInt)) := by
  have leftBound := left.toNat_lt
  have rightBound := right.toNat_lt
  refine .difference ?_ (overflows_iff _) ?_
  · rw [UInt32.toNat_sub]
    by_cases borrows : left.toNat < right.toNat
    · rw [decide_eq_true borrows, Bool.toNat_true]
      omega
    · rw [decide_eq_false borrows, Bool.toNat_false]
      omega
  · intro fits
    exact (Int32.toInt_sub left.toInt32 right.toInt32).trans (wrapped_of_fits fits)

variable {right}

/-- A divisor other than zero leaves a remainder that is smaller. -/
theorem division_exact (divisor : right ≠ 0) :
    left.toNat = (left / right).toNat * right.toNat + (left % right).toNat ∧
      (left % right).toNat < right.toNat := by
  have positive : 0 < right.toNat := by
    refine Nat.pos_of_ne_zero fun zero => divisor ?_
    exact UInt32.toNat_inj.mp zero
  rw [UInt32.toNat_div, UInt32.toNat_mod]
  exact ⟨(Nat.div_add_mod' left.toNat right.toNat).symm, Nat.mod_lt _ positive⟩

/-- Every operation has a result, except for a division by zero. -/
theorem arithmeticResult_yields {opcode : Opcode} (computes : opcode.isArithmetic)
    (divides : opcode = .div ∨ opcode = .mod → right ≠ 0) :
    ∃ result newFlags, arithmeticResult opcode flags left right = .ok (result, newFlags) ∧
      opcode.Yields flags left right result newFlags.carry newFlags.overflow := by
  cases opcode with
  | add => exact ⟨_, _, rfl, sum_yields flags left right⟩
  | sub => exact ⟨_, _, rfl, difference_yields flags left right⟩
  | mul => exact ⟨_, _, rfl, .product (UInt32.toNat_mul left right)⟩
  | div =>
      obtain ⟨exact, small⟩ := division_exact left (divides (.inl rfl))
      exact ⟨_, _, if_neg (divides (.inl rfl)), .quotient _ exact small⟩
  | mod =>
      obtain ⟨exact, small⟩ := division_exact left (divides (.inr rfl))
      exact ⟨_, _, if_neg (divides (.inr rfl)), .remainder _ exact small⟩
  | and => exact ⟨_, _, rfl, .conjunction (UInt32.toNat_and left right)⟩
  | or => exact ⟨_, _, rfl, .disjunction (UInt32.toNat_or left right)⟩
  | _ => cases computes

end Results

/-- An instruction succeeds and leaves its result in a register, and the flags of comparisons show
whether the result is zero and whether its signed reading is negative. -/
structure Stores (machine : Machine) (sink : Sink) (instruction : Instruction)
    (register : Register) (result : UInt32) (carry overflow : Bool) : Prop where
  succeeds : (machine.execute sink instruction).result = .ok ()
  stored : (machine.execute sink instruction).machine.valueOf register = result
  zero : (machine.execute sink instruction).machine.flags.zero = true ↔ result.toNat = 0
  negative : (machine.execute sink instruction).machine.flags.negative = true ↔
    result.toInt32.toInt < 0
  carry : (machine.execute sink instruction).machine.flags.carry = carry
  overflow : (machine.execute sink instruction).machine.flags.overflow = overflow

section Execution

variable {machine : Machine} {sink : Sink} {instruction : Instruction} {register : Register}

theorem storeResult_assign (machine : Machine) (writable : register ≠ .hp) (result : UInt32) :
    machine.storeResult register.id result =
      .ok { machine.assign register result with flags := machine.flags.afterResult result } := by
  rw [storeResult, writeRegister_eq, writableRegister_id writable]
  rfl

/-- A result that is stored is shown by the flags. -/
theorem stores_of_execute {flags : Flags} {result : UInt32} (writable : register ≠ .hp)
    (executed : machine.execute sink instruction =
      .ofUpdate { machine with flags } sink
        (storeResult { machine with flags } register.id result)) :
    machine.Stores sink instruction register result flags.carry flags.overflow := by
  rw [storeResult_assign _ writable] at executed
  constructor <;> rw [executed]
  · rfl
  · exact valueOf_assign { machine with flags } result writable
  · exact decide_eq_true_iff.trans UInt32.toNat_inj.symm
  · exact decide_eq_true_iff.trans (Word.signed_neg_iff result).symm
  · rfl
  · rfl

theorem execute_isArithmetic (computes : instruction.opcode.isArithmetic) :
    machine.execute sink instruction = machine.arithmetic sink instruction := by
  unfold execute
  cases opcode : instruction.opcode <;> rw [opcode] at computes <;> first | rfl | cases computes

/-- With its operands found, an operation is up to the two words. -/
theorem operation_found {right : UInt32} (dest : instruction.dest = .registerDirect register.id)
    (found : machine.sourceValue instruction = .ok right) :
    machine.operation instruction =
      (arithmeticResult instruction.opcode machine.flags (machine.valueOf register) right).map
        fun computed => (register.id, computed) := by
  unfold operation
  rw [destRegister_ofRegister dest, okBind, found, okBind, readRegister_id, okBind]
  cases arithmeticResult instruction.opcode machine.flags (machine.valueOf register) right <;> rfl

end Execution

/-- The arithmetic of a register, its destination. An operation stores the exact result of the two
words and leaves the carry and overflow that belong to it, a division by zero fails, and a
complement stores what is missing to the largest word. -/
structure ComputesExactly (machine : Machine) (sink : Sink) (instruction : Instruction)
    (register : Register) : Prop where
  operation : instruction.opcode.isArithmetic → ∀ right,
    machine.sourceValue instruction = .ok right →
      (instruction.opcode = .div ∨ instruction.opcode = .mod → right ≠ 0) →
        ∃ result carry overflow,
          machine.Stores sink instruction register result carry overflow ∧
            instruction.opcode.Yields machine.flags (machine.valueOf register) right result carry
              overflow
  divisionByZero : instruction.opcode = .div ∨ instruction.opcode = .mod →
    machine.sourceValue instruction = .ok 0 →
      machine.execute sink instruction = ⟨machine, sink, [], .error (.raised .divideByZero)⟩
  complement : instruction.opcode = .not → ∃ result : UInt32,
    machine.Stores sink instruction register result machine.flags.carry machine.flags.overflow ∧
      result.toNat = 0x100000000 - 1 - (machine.valueOf register).toNat

/-- Arithmetic on any two words, which may be the same register, is exact. -/
theorem execute_computesExactly (machine : Machine) (sink : Sink) {instruction : Instruction}
    {register : Register} (writable : register ≠ .hp)
    (dest : instruction.dest = .registerDirect register.id) :
    machine.ComputesExactly sink instruction register where
  operation computes right found divides := by
    obtain ⟨result, flags, computed, yields⟩ :=
      arithmeticResult_yields machine.flags (machine.valueOf register) computes divides
    refine ⟨result, flags.carry, flags.overflow, stores_of_execute writable ?_, yields⟩
    rw [execute_isArithmetic computes, arithmetic_eq, operation_found dest found, computed]
    rfl
  divisionByZero divides found := by
    have computes : instruction.opcode.isArithmetic := by
      rcases divides with opcode | opcode <;> rw [opcode] <;> rfl
    rw [execute_isArithmetic computes, arithmetic_eq, operation_found dest found]
    rcases divides with opcode | opcode <;> rw [opcode] <;> rfl
  complement opcode := by
    refine ⟨~~~machine.valueOf register, stores_of_execute writable ?_, UInt32.toNat_not _⟩
    unfold execute
    rw [opcode]
    dsimp only
    unfold Machine.complement
    rw [destRegister_ofRegister dest, okBind, readRegister_id, okBind]

/-- The least signed word added to itself is zero with a carry and an overflow. -/
theorem execute_computesExactly_aliased :
    let machine := (empty none).assign .r1 0x80000000
    let instruction : Instruction := ⟨.add, .registerDirect 1, .registerDirect 1, false, false⟩
    machine.ComputesExactly .unlimited instruction .r1 ∧
      machine.Stores .unlimited instruction .r1 0 true true := by
  intro machine instruction
  exact ⟨execute_computesExactly machine .unlimited (by decide) rfl,
    ⟨rfl, by decide, by decide, by decide, by decide, by decide⟩⟩

end Machine

end RegisterMachine
