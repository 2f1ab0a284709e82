/-
This file collects what the table of registers says of their ids and of their names. An id that no
register has is shown by its number.
-/

import RegisterMachine.Isa.Register

namespace RegisterMachine.Register

/-- Every register but the three pointers has its place in the file of general registers. -/
theorem id_general (register : Register) (notSp : register ≠ .sp) (notBp : register ≠ .bp)
    (notHp : register ≠ .hp) : register.id.toNat < 8 := by
  cases register <;> first | decide | contradiction

/-- Registers stand in the order of their ids. -/
theorem all_id : ∀ index : Fin all.length, all[index].id.toNat = index.val := by
  decide

/-- An id that names a register is the id of that register. -/
theorem ofId?_eq_some {id : UInt8} {register : Register}
    (named : ofId? id = some register) : id = register.id := by
  unfold ofId? at named
  obtain ⟨inside, found⟩ := List.getElem?_eq_some_iff.mp named
  have number := all_id ⟨id.toNat, inside⟩
  rw [Fin.getElem_fin, found] at number
  exact (UInt8.toNat_inj.mp number).symm

theorem ofName?_name (register : Register) : ofName? register.name = some register := by
  cases register <;> decide +kernel

/-- An id is shown by the name of its register, or by its number after a question mark. -/
theorem nameOfId_toList (id : UInt8) :
    (∃ register : Register, id = register.id ∧ nameOfId id = register.name) ∨
      (nameOfId id).toList = '?' :: Nat.toDigits 10 id.toNat := by
  unfold nameOfId
  cases named : ofId? id with
  | some register => exact .inl ⟨register, ofId?_eq_some named, rfl⟩
  | none =>
      right
      rw [String.toList_append, Nat.toString_eq_repr, Nat.toList_repr]
      rfl

end RegisterMachine.Register
