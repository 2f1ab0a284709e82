/-
This file follows the texts that a host puts on the heap. They stand there one after the other, and
whatever the program does, they stay until another container is loaded.
-/

import RegisterMachine.Machine.Load
import RegisterMachine.Proofs.Consecutive
import RegisterMachine.Proofs.Machine.Frame
import RegisterMachine.Proofs.Machine.Heap
import RegisterMachine.Proofs.Machine.Image

namespace RegisterMachine.Machine

/-- What an allocation leaves behind, whether it succeeds or not. -/
structure Allocation where
  machine : Machine
  result : Except (Abort RuntimeError) UInt32

/-- An allocation changes the machine in place: the text is written, then the zero behind it, and
then the heap pointer moves. A write that fails leaves those before it. -/
def allocating (machine : Machine) (text : String) : Allocation :=
  let bytes := textBytes text
  let requested := bytes.length + 1
  if machine.hp.toNat + requested ≤ Segment.heap.limit.toNat then
    match machine.memory.write machine.hp bytes with
    | .error reason => ⟨machine, .error reason⟩
    | .ok memory =>
        let written := { machine with memory }
        match Abort.lift (advance machine.hp bytes.length) >>= (memory.writeByte · 0) with
        | .error reason => ⟨written, .error reason⟩
        | .ok memory =>
            let terminated := { machine with memory }
            match Abort.lift (advance machine.hp requested) with
            | .error reason => ⟨terminated, .error reason⟩
            | .ok hp => ⟨{ terminated with hp }, .ok machine.hp⟩
  else ⟨machine, .error (.raised (.heapOutOfBounds requested))⟩

/-- A text that fits is stored, and nothing is written of one that does not. -/
theorem allocating_eq (machine : Machine) (text : String) :
    machine.allocating text =
      if machine.hp.toNat + ((textBytes text).length + 1) ≤ Segment.heap.limit.toNat then
        ⟨machine.stored (textBytes text), .ok machine.hp⟩
      else ⟨machine, .error (.raised (.heapOutOfBounds ((textBytes text).length + 1)))⟩ := by
  unfold allocating
  dsimp only
  by_cases fits : machine.hp.toNat + ((textBytes text).length + 1) ≤ Segment.heap.limit.toNat
  · obtain ⟨written, last, zero, moved⟩ := machine.store_writes (textBytes text) fits
    rw [if_pos fits, if_pos fits, written]
    dsimp only
    rw [last, Abort.liftOk, okBind, zero]
    dsimp only
    rw [moved]
    rfl
  · rw [if_neg fits, if_neg fits]

/-- The machine that the host gets back is the one that the allocation leaves behind. -/
theorem allocateText_allocating (machine : Machine) (text : String) :
    (machine.allocateText text).value =
      (machine.allocating text).result.map fun address =>
        (address, (machine.allocating text).machine) := by
  rw [allocateText_eq, allocating_eq]
  split <;> rfl

/-- A text on the heap with its address. -/
structure HeapText where
  address : UInt32
  text : String

namespace HeapText

/-- The number of the first byte. -/
def start (entry : HeapText) : Nat :=
  entry.address.toNat

/-- A zero stands behind each text. -/
def size (entry : HeapText) : Nat :=
  (textBytes entry.text).length + 1

/-- One past the zero. -/
def stop (entry : HeapText) : Nat :=
  entry.start + entry.size

end HeapText

/-- The heap is filled with texts from its base up to the heap pointer. -/
structure HoldsTexts (entries : List HeapText) (machine : Machine) : Prop where
  consecutive : Consecutive HeapText.start HeapText.size Segment.heap.base.toNat entries
  pointer : machine.hp.toNat = Segment.heap.base.toNat + totalSize HeapText.size entries
  inHeap : machine.hp.toNat ≤ Segment.heap.limit.toNat
  contents : ∀ entry ∈ entries,
    machine.memory.bytesAt entry.address.toNat entry.size = textBytes entry.text ++ [0]

theorem HoldsTexts.stop_le {entries : List HeapText} {machine : Machine}
    (holds : HoldsTexts entries machine) {entry : HeapText} (member : entry ∈ entries) :
    entry.stop ≤ machine.hp.toNat := by
  rw [holds.pointer]
  exact (holds.consecutive.within entry member).2

/-- What keeps the frame keeps the texts, for the heap ends where the stack begins. -/
theorem HoldsTexts.of_frame {entries : List HeapText} {before after : Machine}
    (holds : HoldsTexts entries before) (frame : StepFrame before after) :
    HoldsTexts entries after where
  consecutive := holds.consecutive
  pointer := frame.hp ▸ holds.pointer
  inHeap := frame.hp ▸ holds.inHeap
  contents entry member := by
    rw [← holds.contents entry member]
    apply Memory.bytesAt_congr
    intro position inside
    have stop : position < entry.stop := inside
    have below := holds.stop_le member
    have heapEnd : before.hp.toNat ≤ Segment.stack.base.toNat := holds.inHeap
    exact frame.belowStack position (by omega)

/-- A text that fits stands behind the others. -/
theorem HoldsTexts.stored {entries : List HeapText} {machine : Machine} {text : String}
    (holds : HoldsTexts entries machine)
    (fits : machine.hp.toNat + ((textBytes text).length + 1) ≤ Segment.heap.limit.toNat) :
    HoldsTexts (entries ++ [⟨machine.hp, text⟩]) (machine.stored (textBytes text)) where
  consecutive := holds.consecutive.append holds.pointer
  pointer := by
    rw [stored_hp fits, totalSize_append, holds.pointer, Nat.add_assoc]
    rfl
  inHeap := Nat.le_trans (Nat.le_of_eq (stored_hp fits)) fits
  contents := by
    rw [List.forall_mem_append, List.forall_mem_singleton]
    constructor
    · intro entry member
      rw [← holds.contents entry member]
      apply Memory.bytesAt_congr
      intro position inside
      exact stored_below fits (Nat.lt_of_lt_of_le inside (holds.stop_le member))
    · have length : (textBytes text ++ [0]).length = (textBytes text).length + 1 :=
        List.length_append
      have inImage : machine.hp.toNat + (textBytes text ++ [0]).length ≤ imageSize := by
        rw [length]
        exact Nat.le_trans fits (Segment.limit_le_imageSize .heap)
      have stored := machine.memory.bytesAt_setBytes inImage
      rw [length] at stored
      exact stored

/-- What a host does with a machine that has no code, or with a container that it loaded, until
another container is loaded; with the texts that it put on the heap, in order. -/
inductive Hosted : List HeapText → Machine → Prop
  | empty (fuelLimit : Option UInt32) : Hosted [] (empty fuelLimit)
  | load {machine loaded : Machine} {bytes : List UInt8}
      (accepted : (machine.load bytes).value = .ok loaded) : Hosted [] loaded
  | loadRefused {entries : List HeapText} {machine : Machine} {bytes : List UInt8}
      {reason : Abort RuntimeError} (earlier : Hosted entries machine)
      (refused : (machine.loading bytes).value.result = .error reason) :
      Hosted entries (machine.loading bytes).value.machine
  | step {entries : List HeapText} {machine : Machine} (sink : Sink)
      (earlier : Hosted entries machine) : Hosted entries (machine.step sink).machine
  | run {entries : List HeapText} {machine : Machine} {record : Bool} {steps : Nat} {sink : Sink}
      {progress : Progress} (earlier : Hosted entries machine)
      (ended : run record steps machine sink = some progress) : Hosted entries progress.machine
  | allocate {entries : List HeapText} {machine : Machine} {text : String} {address : UInt32}
      (earlier : Hosted entries machine)
      (allocated : (machine.allocating text).result = .ok address) :
      Hosted (entries ++ [⟨address, text⟩]) (machine.allocating text).machine
  | allocateRefused {entries : List HeapText} {machine : Machine} {text : String}
      {reason : Abort RuntimeError} (earlier : Hosted entries machine)
      (refused : (machine.allocating text).result = .error reason) :
      Hosted entries (machine.allocating text).machine

/-- The heap is empty before the first allocation. -/
theorem HoldsTexts.none {machine : Machine} (pointer : machine.hp = Segment.heap.base) :
    HoldsTexts [] machine where
  consecutive := trivial
  pointer := congrArg UInt32.toNat pointer
  inHeap := by
    rw [pointer]
    decide
  contents := nofun

theorem Hosted.holds {entries : List HeapText} {machine : Machine}
    (hosted : Hosted entries machine) : HoldsTexts entries machine := by
  induction hosted with
  | empty => exact .none rfl
  | load accepted =>
      rw [load_eq] at accepted
      split at accepted
      · rw [← Except.ok.inj accepted]
        exact .none rfl
      · cases accepted
  | @loadRefused _ machine bytes _ _ refused inductionHypothesis =>
      rw [loading_eq] at refused ⊢
      split at refused
      · cases refused
      · exact inductionHypothesis
  | @step _ machine sink _ inductionHypothesis =>
      exact inductionHypothesis.of_frame (machine.step_frame sink)
  | run _ ended inductionHypothesis =>
      exact inductionHypothesis.of_frame (run_frame _ _ _ _ _ ended)
  | allocate _ allocated inductionHypothesis =>
      rw [allocating_eq] at allocated ⊢
      split at allocated
      · rename_i fits
        rw [if_pos fits, ← Except.ok.inj allocated]
        exact inductionHypothesis.stored fits
      · cases allocated
  | allocateRefused _ refused inductionHypothesis =>
      rw [allocating_eq] at refused ⊢
      split at refused
      · cases refused
      · rename_i full
        rw [if_neg full]
        exact inductionHypothesis

/-- What a host can rely on: its texts stand on the heap and do not overlap, only an allocation
moves the heap pointer, and it succeeds exactly if the text and its zero fit. -/
structure KeepsTexts (entries : List HeapText) (machine : Machine) : Prop
    extends HoldsTexts entries machine where
  low : Segment.heap.base.toNat ≤ machine.hp.toNat
  disjoint : entries.Pairwise fun earlier later => earlier.stop ≤ later.address.toNat
  stepPointer : ∀ sink, (machine.step sink).machine.hp = machine.hp
  runPointer : ∀ record steps sink progress, machine.run record steps sink = some progress →
    progress.machine.hp = machine.hp
  allocateText : ∀ text, (machine.allocateText text).value =
    (machine.allocating text).result.map fun address =>
      (address, (machine.allocating text).machine)
  fits : ∀ text,
    machine.hp.toNat + ((textBytes text).length + 1) ≤ Segment.heap.limit.toNat →
      (machine.allocating text).result = .ok machine.hp ∧
      (machine.allocating text).machine.hp.toNat =
        machine.hp.toNat + ((textBytes text).length + 1)
  full : ∀ text,
    Segment.heap.limit.toNat < machine.hp.toNat + ((textBytes text).length + 1) →
      machine.allocating text =
        ⟨machine, .error (.raised (.heapOutOfBounds ((textBytes text).length + 1)))⟩

/-- The texts of a host survive every program, until another container is loaded. -/
theorem hosted_keepsTexts {entries : List HeapText} {machine : Machine}
    (hosted : Hosted entries machine) : KeepsTexts entries machine where
  toHoldsTexts := hosted.holds
  low := by
    rw [hosted.holds.pointer]
    exact Nat.le_add_right _ _
  disjoint := hosted.holds.consecutive.disjoint
  stepPointer sink := (machine.step_frame sink).hp
  runPointer record steps sink progress ended := (run_frame _ _ _ _ _ ended).hp
  allocateText := machine.allocateText_allocating
  fits text room := by
    rw [allocating_eq, if_pos room]
    exact ⟨rfl, stored_hp room⟩
  full text past := by
    rw [allocating_eq, if_neg (Nat.not_le_of_lt past)]

/-- Two texts stand on the heap after a step of the program between the two allocations. -/
theorem hosted_keepsTexts_two :
    let container := Container.ofSections ⟨[0x06, 0, 0, 0, 0, 0, 0, 0], [], []⟩ 0
    let machine := ((((empty none).started container).allocating "hi").machine.step
      .unlimited).machine
    let entries : List HeapText := [⟨0x100000, "hi"⟩, ⟨0x100003, "é"⟩]
    Hosted entries (machine.allocating "é").machine ∧
      KeepsTexts entries (machine.allocating "é").machine := by
  intro container machine entries
  have accepted : (Container.ofLoadable container.toBytes).value = .ok container := by
    decide +kernel
  have loaded : ((empty none).load container.toBytes).value =
      .ok ((empty none).started container) := by
    rw [load_eq, accepted]
  have first : (((empty none).started container).allocating "hi").result = .ok 0x100000 := by
    decide +kernel
  have second : (machine.allocating "é").result = .ok 0x100003 := by
    decide +kernel
  have hosted : Hosted entries (machine.allocating "é").machine :=
    .allocate (.step .unlimited (.allocate (.load loaded) first)) second
  exact ⟨hosted, hosted_keepsTexts hosted⟩

end RegisterMachine.Machine
