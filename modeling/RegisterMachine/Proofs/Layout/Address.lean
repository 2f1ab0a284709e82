/-
This file says where the names and the values of a program belong, from its lines alone. An address
is the start of a segment and the number of bytes that come before.
-/

import Mathlib.Algebra.Ring.Nat
import RegisterMachine.Layout.Placement

namespace RegisterMachine.Source

/-- The bytes before the first of the items that is looked for. -/
def offset? {α : Type} (size : α → Nat) (wanted : α → Bool) : List α → Option Nat
  | [] => none
  | item :: rest =>
      if wanted item then some 0 else (offset? size wanted rest).map (size item + ·)

/-- An item behind others is found if none of them is wanted, and all of them come before it. -/
theorem offset?_append {α : Type} (size : α → Nat) (wanted : α → Bool) (items : List α)
    (last : α) :
    offset? size wanted (items ++ [last]) =
      (offset? size wanted items).or
        (if wanted last then some (items.map size).sum else none) := by
  induction items with
  | nil => simp [offset?]
  | cons item rest inductionHypothesis =>
      rw [List.cons_append, offset?, offset?, inductionHypothesis]
      by_cases first : wanted item
      · simp [first]
      · cases offset? size wanted rest <;> by_cases now : wanted last <;> simp [first, now]

/-- The bytes that a value takes in its section. -/
def Operand.bytes (interner : Interner) (operand : Operand) : List UInt8 :=
  match valueBytes? interner operand with
  | .ok (some bytes) => bytes
  | _ => []

/-- What the read-only data holds: named values and string operands of instructions. -/
inductive Constant where
  | named (name : Symbol) (value : Operand)
  | literal (text : Symbol)
  deriving DecidableEq

namespace Constant

def value : Constant → Operand
  | named _ value => value
  | literal text => .string text

def bytes (interner : Interner) (constant : Constant) : List UInt8 :=
  constant.value.bytes interner

def isNamed (name : Symbol) : Constant → Bool
  | named other _ => name = other
  | literal _ => false

def isLiteral (text : Symbol) : Constant → Bool
  | named _ _ => false
  | literal other => text = other

/-- A string operand that has a copy gets no other. -/
def place (placed : List Constant) (constant : Constant) : List Constant :=
  match constant with
  | named _ _ => placed ++ [constant]
  | literal text => if placed.any (isLiteral text) then placed else placed ++ [constant]

/-- Where a constant is among those that were placed. -/
def address? (interner : Interner) (wanted : Constant → Bool) (placed : List Constant) :
    Option UInt32 :=
  (offset? (fun constant => (constant.bytes interner).length) wanted placed).map fun offset =>
    Segment.rodata.base + UInt32.ofNat offset

end Constant

def Operand.literal? : Operand → Option Constant
  | .string text => some (.literal text)
  | _ => none

namespace Line

def instruction? : Line → Option Instruction
  | .instruction content => some content
  | .label _ | .directive _ _ => none

/-- An instruction takes one slot of the code. -/
def codeSize : Line → Nat
  | .instruction _ => RegisterMachine.Instruction.byteSize
  | .label _ | .directive _ _ => 0

def isLabel (name : Symbol) : Line → Bool
  | .label other => name = other
  | .instruction _ | .directive _ _ => false

/-- The bytes that a line adds to the data. -/
def dataBytes (interner : Interner) : Line → List UInt8
  | .directive .data operands => operands.second.bytes interner
  | _ => []

/-- A line that gives a name to a value of the data. -/
def isDatum (name : Symbol) : Line → Bool
  | .directive .data operands => operands.first = .symbol name
  | _ => false

/-- The constants that a line mentions. -/
def constants : Line → List Constant
  | .directive .rodata ⟨.symbol name, value⟩ => [.named name value]
  | .instruction content => content.operands.toList.filterMap Operand.literal?
  | _ => []

end Line

/-- The constants of a program in the order of their places. -/
def constants (lines : List Line) : List Constant :=
  (lines.flatMap Line.constants).foldl Constant.place []

/-- The number of bytes of code. -/
def codeSize (lines : List Line) : Nat :=
  (lines.map Line.codeSize).sum

/-- The instructions among lines, in order. -/
def instructionsOf (lines : List Line) : List Instruction :=
  lines.filterMap Line.instruction?

/-- A label stands for the place of the instruction that follows it. -/
def labelAddress? (lines : List Line) (name : Symbol) : Option UInt32 :=
  (offset? Line.codeSize (Line.isLabel name) lines).map fun offset =>
    Segment.code.base + UInt32.ofNat offset

def dataAddress? (interner : Interner) (lines : List Line) (name : Symbol) : Option UInt32 :=
  (offset? (fun line => (line.dataBytes interner).length) (Line.isDatum name) lines).map
    fun offset => Segment.data.base + UInt32.ofNat offset

def constantAddress? (interner : Interner) (lines : List Line) (name : Symbol) : Option UInt32 :=
  Constant.address? interner (Constant.isNamed name) (constants lines)

/-- The address of the copy of a string operand. -/
def literalAddress? (interner : Interner) (lines : List Line) (text : Symbol) : Option UInt32 :=
  Constant.address? interner (Constant.isLiteral text) (constants lines)

/-- The address that a name stands for: a label, a datum or a constant. -/
def symbolAddress? (interner : Interner) (lines : List Line) (name : Symbol) : Option UInt32 :=
  (labelAddress? lines name).or
    ((dataAddress? interner lines name).or (constantAddress? interner lines name))

theorem constants_append (lines : List Line) (line : Line) :
    constants (lines ++ [line]) = line.constants.foldl Constant.place (constants lines) := by
  rw [constants, constants, List.flatMap_append, List.foldl_append, List.flatMap_singleton]

theorem codeSize_append (lines : List Line) (line : Line) :
    codeSize (lines ++ [line]) = codeSize lines + line.codeSize := by
  simp [codeSize]

/-- The code takes one slot for each instruction. -/
theorem codeSize_instructionsOf (lines : List Line) :
    codeSize lines = RegisterMachine.Instruction.byteSize * (instructionsOf lines).length := by
  induction lines with
  | nil => rfl
  | cons line rest inductionHypothesis =>
      rw [codeSize] at inductionHypothesis
      rw [codeSize, List.map_cons, List.sum_cons, inductionHypothesis]
      cases line with
      | instruction content =>
          have longer : instructionsOf (.instruction content :: rest) =
            content :: instructionsOf rest := rfl
          rw [longer, List.length_cons, Nat.mul_succ, Nat.add_comm]
          rfl
      | label name | directive directive operands => exact Nat.zero_add _

/-- The address of an item behind others. -/
theorem labelAddress?_append (lines : List Line) (line : Line) (name : Symbol) :
    labelAddress? (lines ++ [line]) name =
      (labelAddress? lines name).or
        (if line.isLabel name then
          some (Segment.code.base + UInt32.ofNat (codeSize lines))
        else none) := by
  rw [labelAddress?, labelAddress?, offset?_append, codeSize]
  cases offset? Line.codeSize (Line.isLabel name) lines <;> by_cases found : line.isLabel name <;>
    simp [found]

theorem dataAddress?_append (interner : Interner) (lines : List Line) (line : Line)
    (name : Symbol) :
    dataAddress? interner (lines ++ [line]) name =
      (dataAddress? interner lines name).or
        (if line.isDatum name then
          some (Segment.data.base +
            UInt32.ofNat (lines.flatMap (Line.dataBytes interner)).length)
        else none) := by
  rw [dataAddress?, dataAddress?, offset?_append, List.length_flatMap]
  cases offset? (fun line => (line.dataBytes interner).length) (Line.isDatum name) lines <;>
    by_cases found : line.isDatum name <;> simp [found]

theorem Constant.address?_append (interner : Interner) (wanted : Constant → Bool)
    (placed : List Constant) (last : Constant) :
    address? interner wanted (placed ++ [last]) =
      (address? interner wanted placed).or
        (if wanted last then
          some (Segment.rodata.base +
            UInt32.ofNat (placed.flatMap (Constant.bytes interner)).length)
        else none) := by
  rw [address?, address?, offset?_append, List.length_flatMap]
  cases offset? (fun constant => (bytes interner constant).length) wanted placed <;>
    by_cases found : wanted last <;> simp [found]

end RegisterMachine.Source
