/-
This file runs machines until they stop.
-/

import RegisterMachine.Machine.Step

namespace RegisterMachine.Machine

/-- A run that succeeded flushes its output; a failure to do so is not recorded. -/
def finish (machine : Machine) (sink : Sink) (trace : Array TraceEvent)
    (log : Array Diagnostic) : Progress :=
  ⟨machine, sink, trace.toList, log.toList,
    sink.flush.mapError fun reason => .raised ⟨.output reason, machine.pc⟩⟩

/-- Steps until the machine stops, or no result after the given number of steps. The trace is
kept only if it is asked for. -/
def runAfter (record : Bool) (trace : Array TraceEvent) (log : Array Diagnostic)
    (machine : Machine) (sink : Sink) : (steps : Nat) → Option Progress
  | 0 => if machine.status = .running then none else some (machine.finish sink trace log)
  | steps + 1 =>
      if machine.status = .running then
        let progress := machine.step sink
        let trace := if record then trace.appendList progress.trace else trace
        let log := log.appendList progress.log
        match progress.result with
        | .ok () => runAfter record trace log progress.machine progress.sink steps
        | .error reason =>
            some ⟨progress.machine, progress.sink, trace.toList, log.toList, .error reason⟩
      else some (machine.finish sink trace log)

/-- A run of at most the given number of steps. A machine that stopped on a fault repeats it at
once. -/
def run (record : Bool) (steps : Nat) (machine : Machine) (sink : Sink) : Option Progress :=
  match machine.fault with
  | some fault => some ⟨machine, sink, [], [], .error (.raised fault)⟩
  | none => runAfter record #[] #[] machine sink steps

end RegisterMachine.Machine
