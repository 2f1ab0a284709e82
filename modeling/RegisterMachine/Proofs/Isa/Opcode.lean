/-
This file collects what the instruction table says of all opcodes: their numbers, their arities and
their mnemonics.
-/

import RegisterMachine.Isa.Opcode

namespace RegisterMachine.Opcode

/-- Opcodes stand in the order of their numbers. -/
theorem all_toByte : ∀ index : Fin all.length, all[index].toByte.toNat = index.val := by
  decide

/-- A byte that stands for an opcode is the byte of that opcode. -/
theorem ofByte?_eq_some {byte : UInt8} {opcode : Opcode}
    (named : ofByte? byte = some opcode) : byte = opcode.toByte := by
  rw [ofByte?, List.getElem?_toArray] at named
  obtain ⟨inside, found⟩ := List.getElem?_eq_some_iff.mp named
  have number := all_toByte ⟨byte.toNat, inside⟩
  rw [Fin.getElem_fin, found] at number
  exact (UInt8.toNat_inj.mp number).symm

/-- The numbers of the opcodes end at 0x19. -/
theorem ofByte?_eq_none {byte : UInt8} : ofByte? byte = none ↔ 0x19 < byte.toNat := by
  rw [ofByte?, List.getElem?_toArray, List.getElem?_eq_none_iff]
  exact Iff.rfl

/-- No opcode takes more than two operands. -/
theorem arity_le (opcode : Opcode) : opcode.arity ≤ 2 := by
  cases opcode <;> decide

/-- No two opcodes share a mnemonic. -/
theorem find?_mnemonic (opcode : Opcode) :
    (all.find? fun other => other.mnemonic == opcode.mnemonic) = some opcode := by
  cases opcode <;> decide +kernel

theorem ofMnemonic?_eq_some {text : String} {opcode : Opcode} :
    ofMnemonic? text = some opcode ↔ Text.lowercase text = opcode.mnemonic := by
  constructor
  · intro found
    have same := List.find?_some found
    exact (beq_iff_eq.mp same).symm
  · intro folded
    rw [ofMnemonic?, folded]
    exact opcode.find?_mnemonic

theorem lowercase_mnemonic (opcode : Opcode) :
    Text.lowercase opcode.mnemonic = opcode.mnemonic := by
  cases opcode <;> decide +kernel

/-- A mnemonic is one word. -/
theorem mnemonic_word (opcode : Opcode) :
    ∀ character ∈ opcode.mnemonic.toList, decide (character ≠ ' ') := by
  apply List.all_eq_true.mp
  cases opcode <;> decide +kernel

theorem mnemonic_getLast? (opcode : Opcode) : opcode.mnemonic.toList.getLast? ≠ some ':' := by
  cases opcode <;> decide +kernel

end RegisterMachine.Opcode
