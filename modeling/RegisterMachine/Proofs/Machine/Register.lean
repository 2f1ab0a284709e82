/-
This file reads and writes registers without a case for a defect: an id either names a register,
which then has a value, or is refused.
-/

import RegisterMachine.Machine.Basic
import RegisterMachine.Proofs.Isa.Register

namespace RegisterMachine

namespace Machine

/-- The value that a register holds. -/
def valueOf (machine : Machine) : Register → UInt32
  | .sp => machine.sp
  | .bp => machine.bp
  | .hp => machine.hp
  | general => machine.general[general.id.toNat]?.getD 0

/-- The machine with a value in a register; the heap pointer takes none. -/
def assign (machine : Machine) (register : Register) (value : UInt32) : Machine :=
  { machine with
    general := machine.general.setIfInBounds register.id.toNat value
    sp := if register = .sp then value else machine.sp
    bp := if register = .bp then value else machine.bp }

theorem register_eq (machine : Machine) (register : Register) :
    machine.register register = .ok (machine.valueOf register) := by
  unfold Machine.register
  split
  · rfl
  · rfl
  · rfl
  · rename_i notSp notBp notHp
    have inFile := register.id_general notSp notBp notHp
    simp only [valueOf, Vector.getElem?_eq_getElem inFile, Option.getD_some]

/-- A read succeeds exactly for ids that name a register. -/
theorem readRegister_eq (machine : Machine) (id : UInt8) :
    machine.readRegister id =
      match Register.ofId? id with
      | some register => .ok (machine.valueOf register)
      | none => .error (.raised (.registerNotFound id)) := by
  unfold readRegister
  cases Register.ofId? id with
  | some register => simp only [register_eq, Abort.liftOk]
  | none => rfl

/-- A register that can be read has a name. -/
theorem readRegister_ok {machine : Machine} {id : UInt8} {value : UInt32}
    (read : machine.readRegister id = .ok value) :
    ∃ register : Register, id = register.id ∧ value = machine.valueOf register := by
  rw [readRegister_eq] at read
  cases named : Register.ofId? id with
  | none =>
      rw [named] at read
      cases read
  | some register =>
      rw [named] at read
      exact ⟨register, Register.ofId?_eq_some named, (Except.ok.inj read).symm⟩

@[simp] theorem readRegister_id (machine : Machine) (register : Register) :
    machine.readRegister register.id = .ok (machine.valueOf register) := by
  rw [readRegister_eq, Register.ofIdId]

theorem setRegister_eq (machine : Machine) (value : UInt32) (register : Register)
    (notHp : register ≠ .hp) :
    machine.setRegister value register = .ok (machine.assign register value) := by
  have pastFile (pointer : Register) (past : 8 ≤ pointer.id.toNat) :
      machine.general.setIfInBounds pointer.id.toNat value = machine.general :=
    Vector.setIfInBounds_eq_of_size_le past
  unfold setRegister
  split
  · simp [assign, pastFile .sp (by decide)]
  · simp [assign, pastFile .bp (by decide)]
  · rename_i notSp notBp
    have inFile := register.id_general notSp notBp notHp
    have stored : machine.general.set register.id.toNat value inFile =
        machine.general.setIfInBounds register.id.toNat value := by
      apply Vector.ext
      intro index inside
      simp only [Vector.getElem_set, Vector.getElem_setIfInBounds]
    rw [dif_pos inFile, stored, assign, if_neg notSp, if_neg notBp]

/-- A write succeeds exactly for ids that name a register other than the heap pointer. -/
theorem writeRegister_eq (machine : Machine) (id : UInt8) (value : UInt32) :
    machine.writeRegister id value =
      (writableRegister id).map fun register => machine.assign register value := by
  unfold writeRegister writableRegister
  cases found : Register.ofId? id with
  | none => rfl
  | some register =>
      by_cases isHp : register = .hp
      · subst isHp
        rfl
      · cases register <;>
          first
            | contradiction
            | rw [okBind, setRegister_eq _ _ _ isHp]; rfl

/-- A register that may be written is one of those with an id, and not the heap pointer. -/
theorem writableRegister_ok {id : UInt8} {register : Register}
    (found : writableRegister id = .ok register) : id = register.id ∧ register ≠ .hp := by
  unfold writableRegister at found
  split at found
  · cases found
  · rename_i notHp named
    cases found
    exact ⟨Register.ofId?_eq_some named, notHp⟩
  · cases found

theorem writableRegister_id {register : Register} (notHp : register ≠ .hp) :
    writableRegister register.id = .ok register := by
  unfold writableRegister
  rw [Register.ofIdId]
  cases register <;> first | rfl | contradiction

/-- A register that was assigned holds the value. -/
theorem valueOf_assign (machine : Machine) {register : Register} (value : UInt32)
    (notHp : register ≠ .hp) : (machine.assign register value).valueOf register = value := by
  cases register with
  | sp | bp => rfl
  | hp => exact absurd rfl notHp
  | r0 | r1 | r2 | r3 | r4 | r5 | r6 | r7 =>
      simp [valueOf, assign, Register.id, Register.ctorIdx]

/-- The other registers keep their values. -/
theorem valueOf_assign_ne (machine : Machine) {register other : Register} (value : UInt32)
    (different : register ≠ other) :
    (machine.assign register value).valueOf other = machine.valueOf other := by
  have ids : register.id.toNat ≠ other.id.toNat := by
    intro same
    have named := Register.ofIdId register
    rw [UInt8.toNat_inj.mp same, Register.ofIdId] at named
    exact different (Option.some.inj named).symm
  cases other with
  | sp | bp => exact if_neg different
  | hp => rfl
  | r0 | r1 | r2 | r3 | r4 | r5 | r6 | r7 =>
      simp only [valueOf, assign, Vector.getElem?_setIfInBounds_ne ids]

end Machine

end RegisterMachine
