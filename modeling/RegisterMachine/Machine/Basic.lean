/-
This file defines the machine: its registers, its flags, its memory and how it stopped.
-/

import RegisterMachine.Diagnostic
import RegisterMachine.Machine.Memory

namespace RegisterMachine

structure Flags where
  zero : Bool
  negative : Bool
  carry : Bool
  overflow : Bool
  deriving DecidableEq, Repr

namespace Flags

def clear : Flags := ⟨false, false, false, false⟩

/-- The flags that a stored result sets. -/
def afterResult (flags : Flags) (result : UInt32) : Flags :=
  { flags with zero := result = 0, negative := 0x80000000 ≤ result.toNat }

end Flags

/-- Only a running machine executes instructions. -/
inductive Status where
  | running
  | halted
  | fatalError
  | softError
  deriving DecidableEq, Repr

def Status.name : Status → String
  | running => "Running"
  | halted => "Halted"
  | fatalError => "FatalError"
  | softError => "SoftError"

structure Machine where
  general : Vector UInt32 8
  sp : UInt32
  bp : UInt32
  hp : UInt32
  pc : UInt32
  flags : Flags
  memory : Memory
  status : Status
  /-- What stopped a machine that is in an error status. -/
  fault : Option Fault
  /-- One past the last byte of the loaded code. -/
  codeEnd : UInt32
  /-- Number of instructions that a loaded program may execute. -/
  fuelLimit : Option UInt32
  /-- Number of instructions that are left. -/
  fuel : Option UInt32

namespace Machine

/-- A machine without code. -/
def empty (fuelLimit : Option UInt32) : Machine where
  general := Vector.replicate 8 0
  sp := Segment.stack.limit
  bp := Segment.stack.limit
  hp := Segment.heap.base
  pc := Segment.code.base
  flags := .clear
  memory := .zero
  status := .running
  fault := none
  codeEnd := Segment.code.base
  fuelLimit
  fuel := fuelLimit

/-- Registers past the pointers are kept in the file of general registers. -/
def register (machine : Machine) : Register → Except Defect UInt32
  | .sp => .ok machine.sp
  | .bp => .ok machine.bp
  | .hp => .ok machine.hp
  | general =>
      match machine.general[general.id.toNat]? with
      | some value => .ok value
      | none => .error .registerFileIndex

def readRegister (machine : Machine) (id : UInt8) : Except (Abort RuntimeError) UInt32 :=
  match Register.ofId? id with
  | some register => Abort.lift (machine.register register)
  | none => .error (.raised (.registerNotFound id))

/-- Instructions may name every register as their destination but the heap pointer. -/
def writableRegister (id : UInt8) : Except (Abort RuntimeError) Register :=
  match Register.ofId? id with
  | some .hp => .error (.raised (.illegalOperation .heapPointerWrite))
  | some register => .ok register
  | none => .error (.raised (.registerNotFound id))

/-- The heap pointer is no register that can be set. -/
def setRegister (machine : Machine) (value : UInt32) : Register → Except Defect Machine
  | .sp => .ok { machine with sp := value }
  | .bp => .ok { machine with bp := value }
  | general =>
      if inFile : general.id.toNat < 8 then
        .ok { machine with general := machine.general.set general.id.toNat value inFile }
      else .error .registerFileIndex

def writeRegister (machine : Machine) (id : UInt8) (value : UInt32) :
    Except (Abort RuntimeError) Machine := do
  let register ← writableRegister id
  Abort.lift (machine.setRegister value register)

/-- The sum of an address and a distance that leaves it a word. -/
def advance (address : UInt32) (distance : Nat) : Except Defect UInt32 :=
  if address.toNat + distance < 0x100000000 then .ok (address + UInt32.ofNat distance)
  else .error .wordOverflow

/-- Bytes with a zero behind them go to the heap pointer, which moves past them. -/
def store (machine : Machine) (bytes : List UInt8) : Except (Abort RuntimeError) Machine := do
  let memory ← machine.memory.write machine.hp bytes
  let last ← Abort.lift (advance machine.hp bytes.length)
  let memory ← memory.writeByte last 0
  let hp ← Abort.lift (advance machine.hp (bytes.length + 1))
  return { machine with memory, hp }

/-- The host puts a text on the heap and gets its address; a text that does not fit is refused. -/
def allocateText (machine : Machine) (text : String) :
    Logged (Except (Abort RuntimeError) (UInt32 × Machine)) :=
  let bytes := text.toUTF8.data.toList
  let requested := bytes.length + 1
  if machine.hp.toNat + requested ≤ Segment.heap.limit.toNat then
    match machine.store bytes with
    | .ok stored => ⟨[.allocatedString machine.hp requested], .ok (machine.hp, stored)⟩
    | .error reason => ⟨[], .error reason⟩
  else ⟨[], .error (.raised (.heapOutOfBounds requested))⟩

end Machine

end RegisterMachine
