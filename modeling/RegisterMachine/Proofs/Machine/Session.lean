/-
This file follows a machine through everything a host can do with it. What the last load put below
the heap stays there, so the code that is executed is always the code of that container.
-/

import Mathlib.Order.Basic
import RegisterMachine.Proofs.Machine.Frame
import RegisterMachine.Proofs.Machine.Heap
import RegisterMachine.Proofs.Machine.Image

namespace RegisterMachine.Machine

/-- The machines that a host can have, each with the container of the last load that succeeded. A
load or an allocation that is refused leaves the machine to the host as it was. -/
inductive Session : Option Container → Machine → Prop
  | empty (fuelLimit : Option UInt32) : Session none (empty fuelLimit)
  | load {held : Option Container} {machine after : Machine} (bytes : List UInt8)
      (container : Container) (earlier : Session held machine)
      (accepted : (Container.ofLoadable bytes).value = .ok container)
      (loaded : (machine.load bytes).value = .ok after) : Session (some container) after
  | loadRefused {held : Option Container} {machine : Machine} (bytes : List UInt8)
      (reason : Abort RuntimeError) (earlier : Session held machine)
      (refused : (machine.load bytes).value = .error reason) : Session held machine
  | step {held : Option Container} {machine : Machine} (sink : Sink)
      (earlier : Session held machine) : Session held (machine.step sink).machine
  | run {held : Option Container} {machine : Machine} {progress : Progress} (record : Bool)
      (steps : Nat) (sink : Sink) (earlier : Session held machine)
      (ended : run record steps machine sink = some progress) : Session held progress.machine
  | allocate {held : Option Container} {machine after : Machine} (text : String)
      (address : UInt32) (earlier : Session held machine)
      (allocated : (machine.allocateText text).value = .ok (address, after)) : Session held after
  | allocateRefused {held : Option Container} {machine : Machine} (text : String)
      (reason : Abort RuntimeError) (earlier : Session held machine)
      (refused : (machine.allocateText text).value = .error reason) : Session held machine

/-- The byte that the last load left at a position; before any load there are zeros. -/
def heldByte : Option Container → Nat → UInt8
  | some container, position => container.toSections.byteAt position
  | none, _ => 0

/-- The number of bytes of loaded code. -/
def heldCodeLength : Option Container → Nat
  | some container => container.code.length
  | none => 0

/-- What holds in every session: the image below the heap is as it was loaded, the heap pointer
stays inside the heap, and the code ends where the loaded code ends. -/
structure Intact (held : Option Container) (machine : Machine) : Prop where
  loadable : ∀ container, held = some container → container.Loadable
  belowHeap : ∀ position, position < Segment.heap.base.toNat →
    machine.memory.byteAt position = heldByte held position
  heapLow : Segment.heap.base.toNat ≤ machine.hp.toNat
  heapHigh : machine.hp.toNat ≤ Segment.heap.limit.toNat
  codeEnd : machine.codeEnd.toNat = heldCodeLength held

theorem Intact.of_frame {held : Option Container} {before after : Machine}
    (intact : Intact held before) (frame : StepFrame before after) : Intact held after where
  loadable := intact.loadable
  belowHeap position below := by
    have belowStack : position < Segment.stack.base.toNat := Nat.lt_trans below (by decide)
    rw [frame.belowStack position belowStack]
    exact intact.belowHeap position below
  heapLow := by
    rw [frame.hp]
    exact intact.heapLow
  heapHigh := by
    rw [frame.hp]
    exact intact.heapHigh
  codeEnd := by
    rw [frame.codeEnd]
    exact intact.codeEnd

/-- A machine without code has an image of zeros. -/
theorem empty_intact (fuelLimit : Option UInt32) : Intact none (empty fuelLimit) where
  loadable := by
    intro container none
    cases none
  belowHeap position _ := Memory.byteAtZero position
  heapLow := Nat.le_refl _
  heapHigh := show Segment.heap.base.toNat ≤ Segment.heap.limit.toNat by decide
  codeEnd := rfl

theorem started_intact (machine : Machine) {container : Container}
    (loadable : container.Loadable) : Intact (some container) (machine.started container) where
  loadable := by
    intro other same
    rw [← Option.some.inj same]
    exact loadable
  belowHeap position _ := imageOf_byteAt loadable.fit position
  heapLow := Nat.le_refl _
  heapHigh := show Segment.heap.base.toNat ≤ Segment.heap.limit.toNat by decide
  codeEnd := by
    have start : Segment.code.base + container.header.codeLength = container.header.codeLength :=
      UInt32.zero_add _
    change (Segment.code.base + container.header.codeLength).toNat = container.code.length
    rw [start, loadable.codeLength]

theorem load_intact {machine after : Machine} {bytes : List UInt8} {container : Container}
    (accepted : (Container.ofLoadable bytes).value = .ok container)
    (loaded : (machine.load bytes).value = .ok after) : Intact (some container) after := by
  rw [load_eq, accepted] at loaded
  rw [← Except.ok.inj loaded]
  exact machine.started_intact (Container.ofLoadable_ok accepted)

theorem allocateText_ok {machine after : Machine} {text : String} {address : UInt32}
    (allocated : (machine.allocateText text).value = .ok (address, after)) :
    machine.hp.toNat + ((textBytes text).length + 1) ≤ Segment.heap.limit.toNat ∧
      address = machine.hp ∧ after = machine.stored (textBytes text) := by
  rw [allocateText_eq] at allocated
  split at allocated
  · rename_i fits
    cases allocated
    exact ⟨fits, rfl, rfl⟩
  · cases allocated

theorem allocate_intact {held : Option Container} {machine after : Machine} {text : String}
    {address : UInt32} (intact : Intact held machine)
    (allocated : (machine.allocateText text).value = .ok (address, after)) :
    Intact held after := by
  obtain ⟨fits, _, same⟩ := allocateText_ok allocated
  have moved := stored_hp fits
  rw [same]
  exact {
    loadable := intact.loadable
    belowHeap := by
      intro position below
      rw [stored_below fits (Nat.lt_of_lt_of_le below intact.heapLow)]
      exact intact.belowHeap position below
    heapLow := by
      have low := intact.heapLow
      omega
    heapHigh := by
      rw [moved]
      exact fits
    codeEnd := intact.codeEnd }

/-- Every call of the host keeps the loaded image. -/
theorem Session.intact {held : Option Container} {machine : Machine}
    (session : Session held machine) : Intact held machine := by
  induction session with
  | empty fuelLimit => exact empty_intact fuelLimit
  | load bytes container _ accepted loaded _ => exact load_intact accepted loaded
  | loadRefused _ _ _ _ inductionHypothesis => exact inductionHypothesis
  | step sink _ inductionHypothesis => exact inductionHypothesis.of_frame (step_frame _ sink)
  | run record steps sink _ ended inductionHypothesis =>
      exact inductionHypothesis.of_frame (run_frame record steps _ sink _ ended)
  | allocate text address _ allocated inductionHypothesis =>
      exact allocate_intact inductionHypothesis allocated
  | allocateRefused _ _ _ _ inductionHypothesis => exact inductionHypothesis

/-- Bytes of loaded code are read back from the image. -/
theorem Intact.bytesAt_code {container : Container} {machine : Machine}
    (intact : Intact (some container) machine) {position length : Nat}
    (inside : position + length ≤ container.code.length) :
    machine.memory.bytesAt position length = (container.code.drop position).take length := by
  have codeFits : container.code.length ≤ Segment.rodata.base.toNat :=
    (intact.loadable container rfl).fit.code
  have beforeHeap : Segment.rodata.base.toNat < Segment.heap.base.toNat := by decide
  apply List.ext_getElem
  · simp only [Memory.bytesAt_length, List.length_take, List.length_drop]
    omega
  · intro index readInside _
    rw [Memory.bytesAt_length] at readInside
    have inCode : position + index < container.code.length := by omega
    simp only [Memory.bytesAt, List.getElem_map, List.getElem_range', List.getElem_take,
      List.getElem_drop, Nat.one_mul]
    rw [intact.belowHeap _ (by omega), heldByte, Sections.byteAt, if_pos (by omega),
      List.getD_eq_getElem?_getD, List.getElem?_eq_getElem inCode, Option.getD_some]

/-- The next instruction is decoded from the loaded code. -/
theorem Intact.nextInstruction_ok {container : Container} {machine : Machine}
    (intact : Intact (some container) machine) (instruction : Instruction) :
    machine.nextInstruction = .ok instruction ↔
      machine.pc.toNat + Instruction.byteSize ≤ container.code.length ∧
        Instruction.decode?
          ((container.code.drop machine.pc.toNat).take Instruction.byteSize) =
            some (.ok instruction) := by
  have codeEnd : machine.codeEnd.toNat = container.code.length := intact.codeEnd
  have codeFits : container.code.length ≤ 0x80000 := (intact.loadable container rfl).fit.code
  have size : imageSize = 0x500000 := rfl
  unfold nextInstruction
  by_cases inCode : machine.pc.toNat + Instruction.byteSize ≤ container.code.length
  · rw [if_neg (by omega), if_neg (by omega), intact.bytesAt_code inCode]
    cases Instruction.decode?
      ((container.code.drop machine.pc.toNat).take Instruction.byteSize) with
    | none => simp
    | some decoded => cases decoded <;> simp [inCode]
  · rw [if_pos (by omega)]
    simp [inCode]

/-- What a program can do to the image: nothing below the heap, where everything is as the last load
left it, and nothing in the heap; a fetch finds exactly the loaded code. -/
structure KeepsLoaded (held : Option Container) (machine : Machine) : Prop where
  belowHeap : ∀ position, position < Segment.heap.base.toNat →
    machine.memory.byteAt position = heldByte held position
  stepHeap : ∀ sink position, Segment.heap.base.toNat ≤ position →
    position < Segment.heap.limit.toNat →
      (machine.step sink).machine.memory.byteAt position = machine.memory.byteAt position
  runHeap : ∀ record steps sink progress, machine.run record steps sink = some progress →
    ∀ position, Segment.heap.base.toNat ≤ position → position < Segment.heap.limit.toNat →
      progress.machine.memory.byteAt position = machine.memory.byteAt position
  fetch : ∀ container, held = some container → ∀ instruction after,
    machine.fetch = .ok (instruction, after) ↔
      machine.pc.toNat + Instruction.byteSize ≤ container.code.length ∧
        Instruction.decode?
          ((container.code.drop machine.pc.toNat).take Instruction.byteSize) =
            some (.ok instruction) ∧
        after = machine.fetched

theorem Intact.fetch_ok {container : Container} {machine : Machine}
    (intact : Intact (some container) machine) (instruction : Instruction) (after : Machine) :
    machine.fetch = .ok (instruction, after) ↔
      machine.pc.toNat + Instruction.byteSize ≤ container.code.length ∧
        Instruction.decode?
          ((container.code.drop machine.pc.toNat).take Instruction.byteSize) =
            some (.ok instruction) ∧
        after = machine.fetched := by
  rw [← and_assoc, ← intact.nextInstruction_ok instruction, fetch_eq]
  cases machine.nextInstruction with
  | error error => simp
  | ok found =>
      simp only [Except.ok.injEq, Prod.mk.injEq]
      constructor
      · rintro ⟨same, moved⟩
        exact ⟨same, moved.symm⟩
      · rintro ⟨same, moved⟩
        exact ⟨same, moved.symm⟩

/-- No sequence of loads, steps, runs and allocations lets a program change what was loaded. -/
theorem session_keepsLoaded {held : Option Container} {machine : Machine}
    (session : Session held machine) : KeepsLoaded held machine where
  belowHeap := session.intact.belowHeap
  stepHeap sink position _ below := (machine.step_frame sink).belowStack position below
  runHeap record steps sink progress ended position _ below :=
    (run_frame record steps machine sink progress ended).belowStack position below
  fetch container same := by
    subst same
    exact session.intact.fetch_ok

/-- A container with one byte of data is held after the host put a text on the heap and the program
pushed a word, which both stand in memory. -/
theorem session_keepsLoaded_push :
    let container := Container.ofSections ⟨[0x18, 8, 0, 0, 0, 0, 0, 0], [], [7]⟩ 0
    let hosted := ((empty none).started container).stored (textBytes "hi")
    let machine := (hosted.step .unlimited).machine
    Session (some container) machine ∧ KeepsLoaded (some container) machine ∧
      machine.memory.bytesAt 0x100000 3 = [0x68, 0x69, 0] ∧
      machine.memory.bytesAt 0x4FFFFC 4 = [0, 0, 0x50, 0] := by
  intro container hosted machine
  have accepted : (Container.ofLoadable container.toBytes).value = .ok container := by
    decide +kernel
  have loaded : ((empty none).load container.toBytes).value =
      .ok ((empty none).started container) := by
    rw [load_eq, accepted]
  have allocated : (((empty none).started container).allocateText "hi").value =
      .ok (0x100000, hosted) := by
    rw [allocateText_eq]
    exact if_pos (by decide +kernel)
  have session : Session (some container) machine :=
    .step .unlimited (.allocate "hi" 0x100000
      (.load container.toBytes container (.empty none) accepted loaded) allocated)
  exact ⟨session, session_keepsLoaded session, by decide +kernel, by decide +kernel⟩

end RegisterMachine.Machine
