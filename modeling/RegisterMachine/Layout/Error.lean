/-
This file lists why a program has no container.
-/

import RegisterMachine.Instruction.Codec
import RegisterMachine.Isa.Directive
import RegisterMachine.Segment

namespace RegisterMachine

/-- What a directive lacks. -/
inductive DirectiveFault where
  | expectsLabel
  | repeated
  | expectsSymbol
  | expectsName
  | expectsValue
  deriving DecidableEq, Repr

def DirectiveFault.text : DirectiveFault → String
  | expectsLabel => "expects a label"
  | repeated => "is given more than once"
  | expectsSymbol => "expects a symbol"
  | expectsName => "expects a name"
  | expectsValue => "expects an integer, char or string value"

/-- Why a program has no container. -/
inductive EmitError where
  | duplicateSymbol (line : Nat) (name : String)
  | undefinedSymbol (line : Nat) (name : String)
  | unknownDirective (line : Nat)
  | invalidDirective (line : Nat) (directive : Directive) (fault : DirectiveFault)
  | invalidEntry (line : Nat) (name : String)
  | sectionOverflow (segment : Segment) (size : Nat)
  | encode (line : Nat) (reason : EncodeError)
  deriving DecidableEq, Repr

def EmitError.message : EmitError → String
  | duplicateSymbol line name => s!"line {line}: `" ++ name ++ "` is already defined"
  | undefinedSymbol line name => s!"line {line}: undefined symbol `" ++ name ++ "`"
  | unknownDirective line => s!"line {line}: unknown directive"
  | invalidDirective line directive fault =>
      s!"line {line}: " ++ directive.name ++ " " ++ fault.text
  | invalidEntry line name => s!"line {line}: entry point `" ++ name ++ "` is not a code label"
  | sectionOverflow segment size =>
      segment.name ++ s!" section needs {size} bytes, capacity is {segment.size.toNat}"
  | encode line reason => s!"line {line}: " ++ reason.message

end RegisterMachine
