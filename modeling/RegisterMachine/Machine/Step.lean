/-
This file takes machines from one instruction to the next.
-/

import RegisterMachine.Machine.Execute
import RegisterMachine.Machine.Trace

namespace RegisterMachine

/-- A machine, its output and its reports after some steps, and how the last step ended. -/
structure Progress where
  machine : Machine
  sink : Sink
  trace : List TraceEvent
  log : List Diagnostic
  result : Except (Abort Fault) Unit

namespace Machine

/-- Each attempt to execute takes one unit of limited fuel. -/
def consumeFuel (machine : Machine) : Except (Abort RuntimeError) Machine :=
  match machine.fuel with
  | none => .ok machine
  | some left =>
      if left = 0 then
        match machine.fuelLimit with
        | some limit => .error (.raised (.fuelExhausted limit))
        | none => .error (.defect .wordOverflow)
      else .ok { machine with fuel := some (left - 1) }

/-- The instruction at the program counter, and the machine with the counter past it. -/
def fetch (machine : Machine) : Except (Abort RuntimeError) (Instruction × Machine) := do
  if machine.pc.toNat + Instruction.byteSize ≤ machine.codeEnd.toNat then
    let bytes ← machine.memory.read machine.pc Instruction.byteSize
    match Instruction.decode? bytes with
    | none => throw (.raised (.pcOutOfBounds machine.pc))
    | some (.error reason) => throw (.raised (.ofDecodeError reason))
    | some (.ok instruction) =>
        let pc ← Abort.lift (advance machine.pc Instruction.byteSize)
        return (instruction, { machine with pc })
  else throw (.raised (.pcOutOfBounds machine.pc))

/-- An error becomes the fault of the machine and settles its status. -/
def fail (machine : Machine) (pc : UInt32) (error : RuntimeError) : Machine × Fault :=
  let fault : Fault := ⟨error, pc⟩
  let status := if error.isFatal then Status.fatalError else Status.softError
  ({ machine with status, fault := some fault }, fault)

/-- An attempt that fails at the given address ends with a fault, and a defect leaves no trace. -/
def stop (machine : Machine) (sink : Sink) (pc : UInt32) (trace : List TraceEvent)
    (log : List Diagnostic) : Abort RuntimeError → Progress
  | .raised error =>
      let (machine, fault) := machine.fail pc error
      ⟨machine, sink, trace ++ [.fault fault], log, .error (.raised fault)⟩
  | .defect cause => ⟨machine, sink, trace, log, .error (.defect cause)⟩

/-- One attempt to execute an instruction on a running machine. -/
def attempt (machine : Machine) (sink : Sink) : Progress :=
  let pc := machine.pc
  match machine.consumeFuel with
  | .error reason => machine.stop sink pc [] [] reason
  | .ok fuelled =>
      match fuelled.fetch with
      | .error reason => fuelled.stop sink pc [] [] reason
      | .ok (instruction, fetched) =>
          let executed := [TraceEvent.instruction pc instruction]
          let outcome := fetched.execute sink instruction
          match outcome.result with
          | .error reason => outcome.machine.stop outcome.sink pc executed outcome.log reason
          | .ok () =>
              let trace := if instruction.opcode = .halt then executed ++ [.halt pc] else executed
              ⟨outcome.machine, outcome.sink, trace, outcome.log, .ok ()⟩

/-- A halted machine stays as it is, and a machine that stopped on a fault repeats it. -/
def step (machine : Machine) (sink : Sink) : Progress :=
  match machine.fault with
  | some fault => ⟨machine, sink, [], [], .error (.raised fault)⟩
  | none =>
      if machine.status = .running then machine.attempt sink
      else ⟨machine, sink, [], [], .ok ()⟩

end Machine

end RegisterMachine
