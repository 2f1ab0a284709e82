/-
This file encodes the instructions of a program whose addresses are settled.
-/

import RegisterMachine.Layout.Basic

namespace RegisterMachine

/-- The operand place of an opcode that holds an address and not a value. -/
def Opcode.addressSlot? : Opcode → Option Nat
  | printStr => some 0
  | loadAddr => some 1
  | _ => none

open Source

namespace Layout

/-- The located form of an operand, and whether it names a global symbol. -/
def operand (layout : Layout) (interner : Interner) (line : Nat) (takesAddress : Bool) :
    Source.Operand → Except (Abort EmitError) (RegisterMachine.Operand × Bool)
  | .register named =>
      return (if takesAddress then .registerIndirect named.id else .registerDirect named.id, false)
  | .integer value =>
      return (if takesAddress then .immediateAddress value else .immediateInt value, false)
  | .char byte =>
      return (if takesAddress then .immediateAddress byte.toUInt32
        else .immediateInt byte.toUInt32, false)
  | .string text =>
      match layout.strings.lookup text with
      | some address => return (.immediateAddress address, false)
      | none => do
          let text ← Abort.lift (interner.resolve text)
          throw (.raised (.undefinedSymbol line text))
  | .symbol name =>
      match layout.symbols.lookup name with
      | some address => return (.immediateAddress address, layout.isGlobal name)
      | none => do
          let text ← Abort.lift (interner.resolve name)
          throw (.raised (.undefinedSymbol line text))
  | .absent => return (.absent, false)

/-- The instruction that a source instruction stands for. -/
def instruction (layout : Layout) (interner : Interner) (line : Nat)
    (source : Source.Instruction) : Except (Abort EmitError) RegisterMachine.Instruction := do
  let addressSlot := source.opcode.addressSlot?
  let (dest, destGlobal) ←
    layout.operand interner line (addressSlot == some 0) source.operands.first
  let (src, srcGlobal) ←
    layout.operand interner line (addressSlot == some 1) source.operands.second
  return {
    opcode := source.opcode
    dest, src
    global := destGlobal || srcGlobal
    sourceImmediate := false }

def encodeInstruction (layout : Layout) (interner : Interner) (line : Nat)
    (source : Source.Instruction) : Except (Abort EmitError) (List UInt8) := do
  let instruction ← layout.instruction interner line source
  instruction.encode.mapError fun reason => .raised (.encode line reason)

def code (layout : Layout) (interner : Interner) (program : Program) :
    Except (Abort EmitError) (List UInt8) := do
  let slots ← program.instructions.mapM fun (line, source) =>
    layout.encodeInstruction interner line source
  return slots.flatten

end Layout

end RegisterMachine
