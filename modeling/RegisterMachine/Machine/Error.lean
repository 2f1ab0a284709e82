/-
This file lists what can stop a machine and the codes under which it is known.
-/

import RegisterMachine.Container.Header
import RegisterMachine.Instruction.Codec
import RegisterMachine.Segment

namespace RegisterMachine

/-- How serious a status code is. -/
inductive Severity where
  | success
  | fatal
  | recoverable
  deriving DecidableEq, Repr

namespace Severity

def name : Severity → String
  | success => "Success"
  | fatal => "Fatal"
  | recoverable => "Recoverable"

/-- Codes outside the known ranges are fatal. -/
def ofCode (code : Nat) : Severity :=
  if code = 0 then success
  else if 100 ≤ code ∧ code ≤ 199 then recoverable
  else fatal

end Severity

/-- The kinds of errors that have a number. -/
inductive ErrorCode where
  | bytecodeTooLarge
  | memoryAllocationFailed
  | invalidBytecode
  | opcodeNotFound
  | nullPointer
  | pcOutOfBounds
  | unknown
  | stackOverflow
  | stackUnderflow
  | heapOutOfBounds
  | memoryOutOfBounds
  | registerNotFound
  | divideByZero
  | invalidAddressingMode
  | illegalOperation
  | output
  | fuelExhausted
  deriving DecidableEq, Repr

namespace ErrorCode

def all : List ErrorCode :=
  [bytecodeTooLarge, memoryAllocationFailed, invalidBytecode, opcodeNotFound, nullPointer,
    pcOutOfBounds, unknown, stackOverflow, stackUnderflow, heapOutOfBounds, memoryOutOfBounds,
    registerNotFound, divideByZero, invalidAddressingMode, illegalOperation, output,
    fuelExhausted]

def number : ErrorCode → Nat
  | bytecodeTooLarge => 1
  | memoryAllocationFailed => 2
  | invalidBytecode => 3
  | opcodeNotFound => 4
  | nullPointer => 5
  | pcOutOfBounds => 6
  | unknown => 99
  | stackOverflow => 100
  | stackUnderflow => 101
  | heapOutOfBounds => 102
  | memoryOutOfBounds => 103
  | registerNotFound => 110
  | divideByZero => 111
  | invalidAddressingMode => 112
  | illegalOperation => 113
  | output => 120
  | fuelExhausted => 130

def name : ErrorCode → String
  | bytecodeTooLarge => "BytecodeTooLarge"
  | memoryAllocationFailed => "MemoryAllocationFailed"
  | invalidBytecode => "InvalidBytecode"
  | opcodeNotFound => "OpcodeNotFound"
  | nullPointer => "NullPointer"
  | pcOutOfBounds => "PcOutOfBounds"
  | unknown => "Unknown"
  | stackOverflow => "StackOverflow"
  | stackUnderflow => "StackUnderflow"
  | heapOutOfBounds => "HeapOutOfBounds"
  | memoryOutOfBounds => "MemoryOutOfBounds"
  | registerNotFound => "RegisterNotFound"
  | divideByZero => "DivideByZero"
  | invalidAddressingMode => "InvalidAddressingMode"
  | illegalOperation => "IllegalOperation"
  | output => "Io"
  | fuelExhausted => "ExecFuelExhausted"

def ofName? (name : String) : Option ErrorCode :=
  all.find? fun code => code.name == name

def severity (code : ErrorCode) : Severity :=
  Severity.ofCode code.number

def text (code : ErrorCode) : String :=
  code.name ++ s!" ({code.number})"

end ErrorCode

/-- Why the machine refuses a container. -/
inductive LoadError where
  | truncated (reason : ContainerError)
  | unsupportedVersion (version : UInt16)
  | emptyCode
  | codeTooLarge (length : UInt32)
  | dataTooLarge (length : UInt32)
  | rodataTooLarge (length : UInt32)
  deriving DecidableEq, Repr

namespace LoadError

def tooLarge (segment : Segment) (length : UInt32) : String :=
  segment.name ++ s!" section of {length.toNat} bytes exceeds the {segment.size.toNat}-byte " ++
    segment.name ++ " segment"

def message : LoadError → String
  | truncated reason => reason.message
  | unsupportedVersion version => s!"unsupported bytecode version {version.toNat}"
  | emptyCode => "code section is empty"
  | codeTooLarge length => tooLarge .code length
  | dataTooLarge length => tooLarge .data length
  | rodataTooLarge length => tooLarge .rodata length

end LoadError

/-- How the output of a program can fail. -/
inductive OutputError where
  | sinkFull
  | flushFailed
  deriving DecidableEq, Repr

def OutputError.message : OutputError → String
  | sinkFull => "sink full"
  | flushFailed => "flush failed"

/-- What a program may not do. -/
inductive IllegalOperation where
  | heapPointerWrite
  deriving DecidableEq, Repr

def IllegalOperation.message : IllegalOperation → String
  | heapPointerWrite => "HP only moves through heap allocation"

/-- What stops a machine. -/
inductive RuntimeError where
  | invalidBytecode (reason : LoadError)
  | invalidInstruction (reason : DecodeError)
  | opcodeNotFound (byte : UInt8)
  | pcOutOfBounds (pc : UInt32)
  | stackOverflow
  | stackUnderflow
  | heapOutOfBounds (requested : Nat)
  | memoryOutOfBounds (address : UInt32)
  | registerNotFound (id : UInt8)
  | divideByZero
  | invalidAddressingMode (opcode : Opcode) (mode : AddressingMode)
  | illegalOperation (reason : IllegalOperation)
  | output (reason : OutputError)
  | fuelExhausted (limit : UInt32)
  deriving DecidableEq, Repr

namespace RuntimeError

/-- An unknown opcode is an error of its own; other decoding errors share one. -/
def ofDecodeError : DecodeError → RuntimeError
  | .opcodeNotFound byte => .opcodeNotFound byte
  | reason => .invalidInstruction reason

def message : RuntimeError → String
  | invalidBytecode reason => "invalid bytecode: " ++ reason.message
  | invalidInstruction reason => "invalid instruction: " ++ reason.message
  | opcodeNotFound byte => "unknown opcode " ++ Text.hexadecimal 2 byte.toNat
  | pcOutOfBounds pc =>
      "program counter " ++ Text.address pc.toNat ++ " is outside the loaded code"
  | stackOverflow => "stack overflow"
  | stackUnderflow => "stack underflow"
  | heapOutOfBounds requested => s!"heap exhausted allocating {requested} bytes"
  | memoryOutOfBounds address =>
      "memory access at " ++ Text.hexadecimal 1 address.toNat ++ " is out of bounds"
  | registerNotFound id => s!"no register with id {id.toNat}"
  | divideByZero => "division by zero"
  | invalidAddressingMode opcode mode =>
      "`" ++ opcode.mnemonic ++ "` does not accept " ++ mode.name ++ " operands"
  | illegalOperation reason => "illegal operation: " ++ reason.message
  | output reason => "output error: " ++ reason.message
  | fuelExhausted limit => s!"execution fuel of {limit.toNat} instructions exhausted"

def code : RuntimeError → ErrorCode
  | invalidBytecode _ | invalidInstruction _ => .invalidBytecode
  | opcodeNotFound _ => .opcodeNotFound
  | pcOutOfBounds _ => .pcOutOfBounds
  | stackOverflow => .stackOverflow
  | stackUnderflow => .stackUnderflow
  | heapOutOfBounds _ => .heapOutOfBounds
  | memoryOutOfBounds _ => .memoryOutOfBounds
  | registerNotFound _ => .registerNotFound
  | divideByZero => .divideByZero
  | invalidAddressingMode _ _ => .invalidAddressingMode
  | illegalOperation _ => .illegalOperation
  | output _ => .output
  | fuelExhausted _ => .fuelExhausted

def severity (error : RuntimeError) : Severity :=
  error.code.severity

def isFatal (error : RuntimeError) : Bool :=
  error.severity = .fatal

end RuntimeError

/-- An error with the address of the instruction that caused it. -/
structure Fault where
  error : RuntimeError
  pc : UInt32
  deriving DecidableEq, Repr

def Fault.message (fault : Fault) : String :=
  fault.error.message ++ " (pc " ++ Text.address fault.pc.toNat ++ ")"

end RegisterMachine
