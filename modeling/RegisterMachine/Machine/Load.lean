/-
This file puts containers into machines. A container is checked before the machine is touched.
-/

import RegisterMachine.Container.Basic
import RegisterMachine.Machine.Basic

namespace RegisterMachine

namespace LoadError

/-- Checks on the lengths in a header, of which the first that fails counts. -/
def checkHeader (header : Header) : Except LoadError Unit :=
  if !header.hasSupportedVersion then .error (.unsupportedVersion header.version)
  else if header.codeLength = 0 then .error .emptyCode
  else if Segment.code.size < header.codeLength then .error (.codeTooLarge header.codeLength)
  else if Segment.data.size < header.dataLength then .error (.dataTooLarge header.dataLength)
  else if Segment.rodata.size < header.rodataLength then
    .error (.rodataTooLarge header.rodataLength)
  else .ok ()

end LoadError

namespace Container

/-- The container in the bytes, if a machine accepts it; a foreign magic number is only
reported. -/
def ofLoadable (bytes : List UInt8) : Logged (Except LoadError Container) :=
  match Header.ofBytes bytes with
  | .error reason => ⟨[], .error (.truncated reason)⟩
  | .ok header =>
      let log := if header.hasExpectedMagic then [] else [.unexpectedMagic header.magic]
      ⟨log, do
        LoadError.checkHeader header
        let sections ← (split header bytes).mapError .truncated
        return { sections with header }⟩

end Container

/-- What a load leaves behind, whether it succeeds or not. -/
structure Loading where
  machine : Machine
  result : Except (Abort RuntimeError) Unit

namespace Machine

/-- Sections are copied one after the other, and a copy that fails leaves those before it. -/
def copySections (machine : Machine) : List (Segment × List UInt8) → Loading
  | [] => ⟨machine, .ok ()⟩
  | (segment, bytes) :: rest =>
      match machine.memory.write segment.base bytes with
      | .ok memory => copySections { machine with memory } rest
      | .error reason => ⟨machine, .error reason⟩

/-- The registers, the fuel and the status at the start of a program; the image stays. -/
def reset (machine : Machine) (header : Header) : Machine :=
  { machine with
    general := Vector.replicate 8 0
    flags := .clear
    pc := Segment.code.base + header.entryPoint
    sp := Segment.stack.limit
    bp := Segment.stack.limit
    hp := Segment.heap.base
    codeEnd := Segment.code.base + header.codeLength
    fuel := machine.fuelLimit
    status := .running
    fault := none }

/-- The image is cleared, the sections are copied to the starts of their segments, and only then
the registers are set. -/
def install (machine : Machine) (container : Container) : Loading :=
  let copied := { machine with memory := .zero }.copySections
    [(.code, container.code), (.rodata, container.rodata), (.data, container.data)]
  match copied.result with
  | .ok () => ⟨copied.machine.reset container.header, .ok ()⟩
  | .error _ => copied

/-- A load changes the machine in place, but not before the container was checked. -/
def loading (machine : Machine) (bytes : List UInt8) : Logged Loading :=
  let checked := Container.ofLoadable bytes
  match checked.value with
  | .error reason => ⟨checked.log, ⟨machine, .error (.raised (.invalidBytecode reason))⟩⟩
  | .ok container =>
      let installed := machine.install container
      let report :=
        match installed.result with
        | .ok () => [.loadedContainer container.code.length container.rodata.length
            container.data.length container.header.entryPoint]
        | .error _ => []
      ⟨checked.log ++ report, installed⟩

/-- The machine after a load that succeeds. -/
def load (machine : Machine) (bytes : List UInt8) :
    Logged (Except (Abort RuntimeError) Machine) :=
  let loaded := machine.loading bytes
  ⟨loaded.log, loaded.value.result.map fun () => loaded.value.machine⟩

end Machine

end RegisterMachine
