/-
This file defines the record of a run, one line for each event.
-/

import RegisterMachine.Instruction.Disassembly
import RegisterMachine.Machine.Error

namespace RegisterMachine

/-- What a run shows of itself. -/
inductive TraceEvent where
  | instruction (pc : UInt32) (executed : Instruction)
  | halt (pc : UInt32)
  | fault (cause : Fault)
  deriving DecidableEq, Repr

def TraceEvent.text : TraceEvent → String
  | instruction pc executed => Text.address pc.toNat ++ "  " ++ executed.text
  | halt pc => "halted at " ++ Text.address pc.toNat
  | fault cause => s!"fault [{cause.error.code.number}]: " ++ cause.message

end RegisterMachine
