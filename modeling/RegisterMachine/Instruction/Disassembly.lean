/-
This file writes instructions as text.
-/

import RegisterMachine.Instruction.Codec

namespace RegisterMachine

/-- Each way of locating an operand has a spelling of its own. -/
def Operand.text : Operand → String
  | registerDirect id => Register.nameOfId id
  | immediateInt value => toString value.toNat
  | immediateAddress address => "@" ++ Text.address address.toNat
  | registerIndirect id => "[" ++ Register.nameOfId id ++ "]"
  | baseOffset base offset =>
      "[" ++ Register.nameOfId base ++ Text.signedDecimal offset ++ "]"
  | pcRelative offset => "pc" ++ Text.signedDecimal offset
  | absent => ""

/-- The mnemonic stands first; absent operands leave no trace. -/
def Instruction.text (instruction : Instruction) : String :=
  match instruction.operands.filter (· ≠ .absent) with
  | [] => instruction.opcode.mnemonic
  | present => instruction.opcode.mnemonic ++ " " ++ ", ".intercalate (present.map Operand.text)

end RegisterMachine
