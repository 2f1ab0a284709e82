/-
This file lists what the assembler and the machine report while they work.
-/

import RegisterMachine.Isa.Register

namespace RegisterMachine

/-- Levels in the order of their urgency. -/
inductive Level where
  | trace
  | debug
  | info
  | warn
  | error
  deriving DecidableEq, Repr

namespace Level

def rank (level : Level) : Nat :=
  level.ctorIdx

def name : Level → String
  | trace => "TRACE"
  | debug => "DEBUG"
  | info => "INFO"
  | warn => "WARN"
  | error => "ERROR"

end Level

/-- The value of one named field of a report. -/
inductive FieldValue where
  | number (value : Nat)
  | text (value : String)
  deriving DecidableEq, Repr

/-- One report; it never changes what is computed. -/
inductive Diagnostic where
  | lineTruncated (line : Nat)
  | literalAboveRange (line : Nat) (literal : String)
  | literalBelowRange (line : Nat) (literal : String)
  | strayRegister (line : Nat) (register : Register)
  | unexpectedMagic (magic : UInt32)
  | unterminatedString (address : UInt32)
  | lexedSource (tokens lines : Nat)
  | parsedProgram (lines : Nat)
  | emittedContainer (instructions symbols rodata data : Nat)
  | loadedContainer (code rodata data : Nat) (entry : UInt32)
  | allocatedString (address : UInt32) (length : Nat)
  deriving DecidableEq, Repr

namespace Diagnostic

def level : Diagnostic → Level
  | lineTruncated _ | literalAboveRange _ _ | literalBelowRange _ _ => .error
  | strayRegister _ _ | unexpectedMagic _ | unterminatedString _ => .warn
  | parsedProgram _ | emittedContainer _ _ _ _ | loadedContainer _ _ _ _ => .debug
  | lexedSource _ _ | allocatedString _ _ => .trace

def message : Diagnostic → String
  | lineTruncated _ => "more than 32 lexemes, truncating line"
  | literalAboveRange _ _ => "integer literal above 4294967295, clamped"
  | literalBelowRange _ _ => "integer literal below -2147483648, clamped"
  | strayRegister _ register => "stray register " ++ register.name ++ " ignored"
  | unexpectedMagic _ => "unexpected magic number, loading anyway"
  | unterminatedString _ => "string runs to the end of memory without a terminator"
  | lexedSource _ _ => "lexed source"
  | parsedProgram _ => "parsed program"
  | emittedContainer _ _ _ _ => "emitted container"
  | loadedContainer _ _ _ _ => "loaded container"
  | allocatedString _ _ => "allocated string"

def fields : Diagnostic → List (String × FieldValue)
  | lineTruncated line => [("line", .number line)]
  | literalAboveRange line literal | literalBelowRange line literal =>
      [("line", .number line), ("literal", .text literal)]
  | strayRegister line _ => [("line", .number line)]
  | unexpectedMagic magic => [("magic", .number magic.toNat)]
  | unterminatedString address => [("addr", .number address.toNat)]
  | lexedSource tokens lines => [("count", .number tokens), ("lines", .number lines)]
  | parsedProgram lines => [("lines", .number lines)]
  | emittedContainer instructions symbols rodata data =>
      [("instructions", .number instructions), ("symbols", .number symbols),
        ("rodata", .number rodata), ("data", .number data)]
  | loadedContainer code rodata data entry =>
      [("code", .number code), ("rodata", .number rodata), ("data", .number data),
        ("entry", .number entry.toNat)]
  | allocatedString address length =>
      [("addr", .number address.toNat), ("len", .number length)]

end Diagnostic

/-- A result together with what was reported on the way to it, in order. -/
structure Logged (α : Type) where
  log : List Diagnostic
  value : α
  deriving Repr

namespace Logged

/-- Reports of a first stage stay when the next one fails. -/
def andThen {α β ε ζ : Type} (first : Logged (Except ε α)) (failed : ε → ζ)
    (next : α → Logged (Except ζ β)) : Logged (Except ζ β) :=
  match first.value with
  | .error reason => ⟨first.log, .error (failed reason)⟩
  | .ok value =>
      let second := next value
      ⟨first.log ++ second.log, second.value⟩

end Logged

end RegisterMachine
