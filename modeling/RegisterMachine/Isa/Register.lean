/-
This file names the registers and numbers them.
-/

import RegisterMachine.Text.Case

namespace RegisterMachine

/-- Eight general registers, the stack pointer, the base pointer and the heap pointer. -/
inductive Register where
  | r0
  | r1
  | r2
  | r3
  | r4
  | r5
  | r6
  | r7
  | sp
  | bp
  | hp
  deriving DecidableEq, Repr, Inhabited

namespace Register

def all : List Register :=
  [r0, r1, r2, r3, r4, r5, r6, r7, sp, bp, hp]

/-- The number that stands in the id byte of an operand. -/
def id (register : Register) : UInt8 :=
  UInt8.ofNat register.ctorIdx

def ofId? (id : UInt8) : Option Register :=
  all[id.toNat]?

theorem ofIdId (register : Register) : ofId? register.id = some register := by
  cases register <;> rfl

/-- Names are written in capital letters. -/
def name : Register → String
  | r0 => "R0"
  | r1 => "R1"
  | r2 => "R2"
  | r3 => "R3"
  | r4 => "R4"
  | r5 => "R5"
  | r6 => "R6"
  | r7 => "R7"
  | sp => "SP"
  | bp => "BP"
  | hp => "HP"

/-- The name may be given in any mixture of cases. -/
def ofName? (text : String) : Option Register :=
  let folded := Text.uppercase text
  all.find? fun register => register.name == folded

/-- An id that no register has is shown after a question mark. -/
def nameOfId (id : UInt8) : String :=
  match ofId? id with
  | some register => register.name
  | none => "?" ++ toString id.toNat

end Register

end RegisterMachine
