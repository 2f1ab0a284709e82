/-
This file names what an operand can be and what a slot of an instruction takes.
-/

namespace RegisterMachine

/-- The kinds of an operand, with `source` for a slot that takes any of them. -/
inductive OperandKind where
  | register
  | integer
  | char
  | string
  | symbol
  | source
  | nothing
  deriving DecidableEq, Repr, Inhabited

namespace OperandKind

/-- Whether an operand of the found kind may fill a slot of the expected kind. -/
def accepts : (expected found : OperandKind) → Bool
  | .source, .nothing => false
  | .source, .source => false
  | .source, _ => true
  | expected, found => expected = found

def name : OperandKind → String
  | .register => "register"
  | .integer => "integer"
  | .char => "char"
  | .string => "string"
  | .symbol => "symbol"
  | .source => "source"
  | .nothing => "nothing"

end OperandKind

end RegisterMachine
