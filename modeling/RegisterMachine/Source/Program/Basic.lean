/-
This file defines programs as the lines of a source text that mean something.
-/

import RegisterMachine.Isa.Opcode
import RegisterMachine.Source.Token.Basic
import RegisterMachine.Text.Numeral

namespace RegisterMachine.Source

/-- An operand as it is written, before it has an addressing mode. -/
inductive Operand where
  | register (named : Register)
  | integer (value : UInt32)
  | char (byte : UInt8)
  | string (text : Symbol)
  | symbol (name : Symbol)
  | absent
  deriving DecidableEq, Repr, Inhabited

namespace Operand

def kind : Operand → OperandKind
  | register _ => .register
  | integer _ => .integer
  | char _ => .char
  | string _ => .string
  | symbol _ => .symbol
  | absent => .nothing

/-- An absent operand has no text. -/
def render (interner : Interner) : Operand → Except Defect String
  | register named => return named.name
  | integer value => return toString value.toNat
  | char byte => return quotedByte byte
  | string text => return "\"" ++ (← interner.resolve text) ++ "\""
  | symbol name => interner.resolve name
  | absent => return ""

end Operand

/-- Operands of an instruction or directive; unused places are absent. -/
structure Operands where
  first : Operand
  second : Operand
  deriving DecidableEq, Repr, Inhabited

namespace Operands

def none : Operands := ⟨.absent, .absent⟩

def toList (operands : Operands) : List Operand :=
  [operands.first, operands.second]

def present (operands : Operands) : List Operand :=
  operands.toList.filter (· ≠ .absent)

/-- Operands past the second have no place. -/
def ofList : List Operand → Operands
  | [] => none
  | [first] => ⟨first, .absent⟩
  | first :: second :: _ => ⟨first, second⟩

/-- Present operands follow a space and are parted by commas. -/
def render (interner : Interner) (operands : Operands) : Except Defect String := do
  match ← operands.present.mapM (Operand.render interner) with
  | [] => return ""
  | texts => return " " ++ ", ".intercalate texts

end Operands

structure Instruction where
  opcode : Opcode
  operands : Operands
  deriving DecidableEq, Repr, Inhabited

/-- One line of a program. -/
inductive Line where
  | label (name : Symbol)
  | instruction (content : Instruction)
  | directive (named : Directive) (operands : Operands)
  deriving DecidableEq, Repr, Inhabited

def Line.render (interner : Interner) : Line → Except Defect String
  | label name => return (← interner.resolve name) ++ ":"
  | instruction content =>
      return content.opcode.mnemonic ++ (← content.operands.render interner)
  | directive named operands => return named.name ++ (← operands.render interner)

/-- A line with the number of the source line it was read from. -/
structure NumberedLine where
  number : Nat
  content : Line
  deriving DecidableEq, Repr, Inhabited

/-- Three digits at least number a rendered line. -/
def NumberedLine.render (interner : Interner) (line : NumberedLine) : Except Defect String :=
  return String.ofList (Text.paddedDigits 10 3 line.number) ++ "  " ++
    (← line.content.render interner) ++ "\n"

/-- The lines of a source in order; their number never passes the capacity. -/
structure Program where
  lines : Array NumberedLine
  capacity : Nat
  sizeWithinCapacity : lines.size ≤ capacity

namespace Program

/-- Room for lines when the caller asks for none in particular. -/
def defaultCapacity : Nat := 1 <<< 16

def empty (capacity : Nat) : Program :=
  ⟨#[], capacity, Nat.zero_le capacity⟩

def size (program : Program) : Nat :=
  program.lines.size

def toList (program : Program) : List NumberedLine :=
  program.lines.toList

/-- A full program takes no further line. -/
def push (program : Program) (line : NumberedLine) : Except Defect Program :=
  if room : program.lines.size < program.capacity then
    .ok {
      lines := program.lines.push line
      capacity := program.capacity
      sizeWithinCapacity := by
        rw [Array.size_push]
        exact room }
  else .error (.lineCapacityExceeded program.capacity line.number)

/-- Instructions in order with their line numbers. -/
def instructions (program : Program) : List (Nat × Instruction) :=
  program.toList.filterMap fun line =>
    match line.content with
    | .instruction content => some (line.number, content)
    | .label _ | .directive _ _ => Option.none

/-- The program as text, a row for each of its lines. -/
def render (interner : Interner) (program : Program) : Except Defect String := do
  let rows ← program.toList.mapM (NumberedLine.render interner)
  return String.join rows

end Program

end RegisterMachine.Source
