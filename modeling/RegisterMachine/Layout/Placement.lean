/-
This file gives every name and every value of a program its address, line by line. An instruction
takes eight bytes of code, so the address of a label is known when the label is met.
-/

import RegisterMachine.Layout.Error
import RegisterMachine.Source.Program.Basic
import RegisterMachine.SymbolTable
import RegisterMachine.Word

namespace RegisterMachine

open Source

/-- What the lines so far have placed. -/
structure Placement where
  symbols : SymbolTable UInt32
  codeLength : Nat
  rodata : Array UInt8
  data : Array UInt8
  /-- Global names with the lines that declared them first. -/
  globals : SymbolTable Nat
  /-- String operands of instructions with the addresses of their copies. -/
  strings : SymbolTable UInt32
  /-- The name of the entry point with the line that gives it. -/
  entry : Option (Symbol × Nat)

/-- The bytes of a text, a zero byte and zeros up to a multiple of four. -/
def stringBytes (text : String) : List UInt8 :=
  let terminated := text.toUTF8.data.toList ++ [0]
  terminated.rightpad ((terminated.length + 3) / 4 * 4) 0

/-- Numbers and characters are stored as words; registers and names are no values. -/
def valueBytes? (interner : Interner) : Source.Operand → Except Defect (Option (List UInt8))
  | .integer value => return some (Word.toBytes value)
  | .char byte => return some [byte, 0, 0, 0]
  | .string text => return some (stringBytes (← interner.resolve text))
  | .register _ | .symbol _ | .absent => return none

namespace Placement

def empty : Placement where
  symbols := .empty
  codeLength := 0
  rodata := #[]
  data := #[]
  globals := .empty
  strings := .empty
  entry := none

/-- Where the next instruction goes. -/
def codeAddress (placement : Placement) : UInt32 :=
  Segment.code.base + UInt32.ofNat placement.codeLength

def rodataAddress (placement : Placement) : UInt32 :=
  Segment.rodata.base + UInt32.ofNat placement.rodata.size

def dataAddress (placement : Placement) : UInt32 :=
  Segment.data.base + UInt32.ofNat placement.data.size

/-- A name may be defined once. -/
def define (interner : Interner) (line : Nat) (name : Symbol) (address : UInt32)
    (placement : Placement) : Except (Abort EmitError) Placement :=
  match placement.symbols.define? name address with
  | some symbols => .ok { placement with symbols }
  | none => do
      let text ← Abort.lift (interner.resolve name)
      throw (.raised (.duplicateSymbol line text))

/-- Equal string operands share one copy. -/
def addString (interner : Interner) (text : Symbol) (placement : Placement) :
    Except (Abort EmitError) Placement := do
  if placement.strings.contains text then return placement
  else
    let bytes := stringBytes (← Abort.lift (interner.resolve text))
    let address := placement.rodataAddress
    return { placement with
      strings := placement.strings.defineFirst text address
      rodata := placement.rodata.appendList bytes }

def addOperand (interner : Interner) (placement : Placement) (operand : Source.Operand) :
    Except (Abort EmitError) Placement :=
  match operand with
  | .string text => placement.addString interner text
  | .register _ | .integer _ | .char _ | .symbol _ | .absent => .ok placement

def addInstruction (interner : Interner) (operands : Operands) (placement : Placement) :
    Except (Abort EmitError) Placement := do
  let placement ← operands.toList.foldlM (addOperand interner) placement
  return { placement with codeLength := placement.codeLength + Instruction.byteSize }

/-- A named value of the data or of the read-only data. -/
def addValue (interner : Interner) (line : Nat) (directive : Directive) (readOnly : Bool)
    (operands : Operands) (placement : Placement) : Except (Abort EmitError) Placement :=
  match operands.first with
  | .symbol name => do
      match ← Abort.lift (valueBytes? interner operands.second) with
      | none => throw (.raised (.invalidDirective line directive .expectsValue))
      | some bytes =>
          if readOnly then
            let address := placement.rodataAddress
            define interner line name address
              { placement with rodata := placement.rodata.appendList bytes }
          else
            let address := placement.dataAddress
            define interner line name address
              { placement with data := placement.data.appendList bytes }
  | _ => throw (.raised (.invalidDirective line directive .expectsName))

def addDirective (interner : Interner) (line : Nat) (directive : Directive)
    (operands : Operands) (placement : Placement) : Except (Abort EmitError) Placement :=
  match directive with
  | .start =>
      match operands.first with
      | .symbol target =>
          if placement.entry.isSome then
            throw (.raised (.invalidDirective line directive .repeated))
          else return { placement with entry := some (target, line) }
      | _ => throw (.raised (.invalidDirective line directive .expectsLabel))
  | .global =>
      match operands.first with
      | .symbol name => return { placement with globals := placement.globals.defineFirst name line }
      | _ => throw (.raised (.invalidDirective line directive .expectsSymbol))
  | .data => placement.addValue interner line directive false operands
  | .rodata => placement.addValue interner line directive true operands
  | .unknown => throw (.raised (.unknownDirective line))

def addLine (interner : Interner) (placement : Placement) (line : NumberedLine) :
    Except (Abort EmitError) Placement :=
  match line.content with
  | .label name => placement.define interner line.number name placement.codeAddress
  | .instruction content => placement.addInstruction interner content.operands
  | .directive directive operands =>
      placement.addDirective interner line.number directive operands

def sectionSizes (placement : Placement) : List (Segment × Nat) :=
  [(.code, placement.codeLength), (.rodata, placement.rodata.size),
    (.data, placement.data.size)]

/-- Each section must fit its segment; the first that does not is named. -/
def checkCapacity (placement : Placement) : Except EmitError Unit :=
  match placement.sectionSizes.find? fun (segment, size) => segment.size.toNat < size with
  | some (segment, size) => .error (.sectionOverflow segment size)
  | none => .ok ()

/-- Every global name must be defined; the one declared first is named if several are not. -/
def checkGlobals (interner : Interner) (placement : Placement) :
    Except (Abort EmitError) Unit :=
  match placement.globals.toList.find? fun (name, _) => !placement.symbols.contains name with
  | some (name, line) => do
      let text ← Abort.lift (interner.resolve name)
      throw (.raised (.undefinedSymbol line text))
  | none => .ok ()

/-- The entry point is a label that an instruction follows, or the start of the code if the
program names none. -/
def entryPoint (interner : Interner) (placement : Placement) :
    Except (Abort EmitError) UInt32 :=
  match placement.entry with
  | none => .ok 0
  | some (target, line) =>
      match placement.symbols.lookup target with
      | none => do
          let text ← Abort.lift (interner.resolve target)
          throw (.raised (.undefinedSymbol line text))
      | some address =>
          let offset := address - Segment.code.base
          if Segment.code.contains address ∧ offset.toNat < placement.codeLength then .ok offset
          else do
            let text ← Abort.lift (interner.resolve target)
            throw (.raised (.invalidEntry line text))

end Placement

end RegisterMachine
