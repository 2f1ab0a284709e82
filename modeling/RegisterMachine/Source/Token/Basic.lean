/-
This file defines tokens and how they are described to a reader.
-/

import RegisterMachine.Interner
import RegisterMachine.Isa.Directive
import RegisterMachine.Isa.Register

namespace RegisterMachine.Source

/-- Mnemonics, labels and names are all identifiers. -/
inductive Token where
  | identifier (name : Symbol)
  | register (named : Register)
  | integer (value : UInt32)
  | char (byte : UInt8)
  | string (text : Symbol)
  | directive (named : Directive)
  | comma
  | endOfLine
  | endOfFile
  deriving DecidableEq, Repr

/-- A byte is shown as the character with its number. -/
def quotedByte (byte : UInt8) : String :=
  String.ofList ['\'', Char.ofNat byte.toNat, '\'']

/-- Texts of identifiers and strings come from the interner. -/
def Token.describe (interner : Interner) : Token → Except Defect String
  | identifier name => return "identifier `" ++ (← interner.resolve name) ++ "`"
  | register named => return "register " ++ named.name
  | integer value => return s!"integer {value.toNat}"
  | char byte => return "char " ++ quotedByte byte
  | string text => return "string \"" ++ (← interner.resolve text) ++ "\""
  | directive named => return "directive " ++ named.name
  | comma => return "`,`"
  | endOfLine => return "end of line"
  | endOfFile => return "end of file"

end RegisterMachine.Source
