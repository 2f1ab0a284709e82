/-
This file defines where the output of a program goes.
-/

import RegisterMachine.Machine.Error

namespace RegisterMachine

/-- The bytes written so far, how many are taken at most, and whether a flush fails. -/
structure Sink where
  written : Array UInt8
  limit : Option Nat
  flushFails : Bool
  deriving DecidableEq, Repr

namespace Sink

/-- A sink that takes everything. -/
def unlimited : Sink := ⟨#[], none, false⟩

/-- Bytes that do not fit are lost, but those before them are kept. -/
def write (sink : Sink) (bytes : List UInt8) : Sink × Except OutputError Unit :=
  match sink.limit with
  | none => ({ sink with written := sink.written.appendList bytes }, .ok ())
  | some limit =>
      let room := limit - sink.written.size
      if bytes.length ≤ room then
        ({ sink with written := sink.written.appendList bytes }, .ok ())
      else
        ({ sink with written := sink.written.appendList (bytes.take room) }, .error .sinkFull)

def flush (sink : Sink) : Except OutputError Unit :=
  if sink.flushFails then .error .flushFailed else .ok ()

end Sink

end RegisterMachine
