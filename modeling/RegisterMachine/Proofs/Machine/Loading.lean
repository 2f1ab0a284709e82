/-
This file says what a load makes of a machine. A load that is refused leaves the machine as it was,
for the reason of the first check that fails. A load that succeeds leaves nothing of the machine but
the limit on its fuel.
-/

import Mathlib.Tactic.SplitIfs
import RegisterMachine.Proofs.Container.Codec

namespace RegisterMachine

/-- The bytes of two halves of a version number. -/
theorem Header.version_bytes (low high : UInt8) :
    let version := UInt16.ofNat (low.toNat + high.toNat <<< 8)
    [UInt8.ofNat version.toNat, UInt8.ofNat (version.toNat >>> 8)] = [low, high] := by
  have lowBound := low.toNat_lt
  have highBound := high.toNat_lt
  simp only [List.cons.injEq, and_true, ← UInt8.toNat_inj, UInt8.toNat_ofNat',
    UInt16.toNat_ofNat']
  omega

/-- As many bytes as a header takes are those of a header. -/
theorem Header.exists_eq_toBytes (bytes : List UInt8) (size : bytes.length = byteSize) :
    ∃ header : Header, bytes = header.toBytes := by
  unfold byteSize at size
  match bytes, size with
  | [m0, m1, m2, m3, v0, v1, c0, c1, c2, c3, e0, e1, e2, e3, r0, r1, r2, r3, d0, d1, d2, d3], _ =>
      refine ⟨⟨Word.ofBytes m0 m1 m2 m3, UInt16.ofNat (v0.toNat + v1.toNat <<< 8),
        Word.ofBytes c0 c1 c2 c3, Word.ofBytes e0 e1 e2 e3, Word.ofBytes r0 r1 r2 r3,
        Word.ofBytes d0 d1 d2 d3⟩, ?_⟩
      simp only [toBytes, Word.toBytesOfBytes, version_bytes, List.cons_append, List.nil_append]

theorem Header.exists_toBytes_append (bytes : List UInt8) (enough : byteSize ≤ bytes.length) :
    ∃ (header : Header) (rest : List UInt8), bytes = header.toBytes ++ rest := by
  have size : (bytes.take byteSize).length = byteSize := List.length_take_of_le enough
  obtain ⟨header, front⟩ := exists_eq_toBytes (bytes.take byteSize) size
  refine ⟨header, bytes.drop byteSize, ?_⟩
  rw [← front, List.take_append_drop]

theorem Header.ofBytes_short {bytes : List UInt8} (few : bytes.length < byteSize) :
    ofBytes bytes = .error (.truncated byteSize bytes.length) := by
  unfold ofBytes
  split
  · simp only [byteSize, List.length_cons] at few
    omega
  · rfl

namespace LoadError

/-- The checks on a header and the number of bytes in their order, each with the error that it
raises when it holds. -/
def checks (header : Header) (size : Nat) : List (Bool × LoadError) :=
  [(header.version ≠ 1, .unsupportedVersion header.version),
    (header.codeLength.toNat = 0, .emptyCode),
    (0x80000 < header.codeLength.toNat, .codeTooLarge header.codeLength),
    (0x40000 < header.dataLength.toNat, .dataTooLarge header.dataLength),
    (0x40000 < header.rodataLength.toNat, .rodataTooLarge header.rodataLength),
    (size < 22 + header.payloadLength, .truncated (.truncated (22 + header.payloadLength) size))]

/-- The error of the first check that holds. -/
def first? (header : Header) (size : Nat) : Option LoadError :=
  ((checks header size).find? Prod.fst).map Prod.snd

theorem find?_check (holds : Prop) [Decidable holds] (error : LoadError)
    (rest : List (Bool × LoadError)) :
    (((decide holds, error) :: rest).find? Prod.fst).map Prod.snd =
      if holds then some error else (rest.find? Prod.fst).map Prod.snd := by
  by_cases failed : holds
  · simp [failed]
  · simp [failed]

/-- The checks on the header come first, and the one on the number of bytes is the last. -/
theorem first?_eq (header : Header) (size : Nat) :
    first? header size =
      match checkHeader header with
      | .error error => some error
      | .ok () =>
          if size < 22 + header.payloadLength then
            some (.truncated (.truncated (22 + header.payloadLength) size))
          else none := by
  have version : (!header.hasSupportedVersion) = true ↔ header.version ≠ 1 := by
    rw [Bool.not_eq_true', Header.hasSupportedVersion, decide_eq_false_iff_not]
    rfl
  have code : header.codeLength = 0 ↔ header.codeLength.toNat = 0 := by
    rw [← UInt32.toNat_inj]
    rfl
  have codeSize : Segment.code.size.toNat = 0x80000 := rfl
  have dataSize : Segment.data.size.toNat = 0x40000 := rfl
  have rodataSize : Segment.rodata.size.toNat = 0x40000 := rfl
  unfold first? checks checkHeader
  simp only [version, code, UInt32.lt_iff_toNat_lt, codeSize, dataSize, rodataSize,
    find?_check, List.find?_nil, Option.map_none]
  split_ifs
  all_goals rfl

end LoadError

namespace Container

/-- The sections that stand behind a header. -/
theorem split_sections {header : Header} {rest : List UInt8} {sections : Sections}
    (found : split header (header.toBytes ++ rest) = .ok sections) :
    ∃ trailing, rest = sections.code ++ sections.rodata ++ sections.data ++ trailing := by
  have payload : (header.toBytes ++ rest).drop Header.byteSize = rest := by
    rw [← Header.toBytesLength header, List.drop_left]
  unfold split at found
  dsimp only at found
  rw [payload] at found
  split at found
  · cases found
  · cases found
    refine ⟨((rest.drop header.codeLength.toNat).drop header.rodataLength.toNat).drop
      header.dataLength.toNat, ?_⟩
    rw [List.append_assoc, List.append_assoc, List.take_append_drop, List.take_append_drop,
      List.take_append_drop]

theorem ofLoadable_header (header : Header) (rest : List UInt8) :
    (ofLoadable (header.toBytes ++ rest)).value = (do
      LoadError.checkHeader header
      let sections ← (split header (header.toBytes ++ rest)).mapError .truncated
      return { sections with header }) := by
  unfold ofLoadable
  rw [Header.ofBytesToBytes]

/-- Bytes that begin with a header are refused for the first check that fails. -/
theorem ofLoadable_refused {header : Header} {rest : List UInt8} {error : LoadError}
    (first : LoadError.first? header (header.toBytes ++ rest).length = some error) :
    (ofLoadable (header.toBytes ++ rest)).value = .error error := by
  rw [LoadError.first?_eq] at first
  rw [ofLoadable_header]
  cases checked : LoadError.checkHeader header with
  | error reason =>
      rw [checked] at first
      rw [← Option.some.inj first]
      rfl
  | ok value =>
      rw [checked] at first
      dsimp only at first
      split at first
      · rename_i few
        have short : (header.toBytes ++ rest).length < Header.byteSize + header.payloadLength := few
        rw [← Option.some.inj first, okBind, split, if_pos short]
        rfl
      · cases first

/-- A container without code is refused. -/
theorem ofSections_refused {sections : Sections} (entryPoint : UInt32)
    (empty : sections.code = []) :
    (ofLoadable (ofSections sections entryPoint).toBytes).value = .error .emptyCode := by
  have header : LoadError.checkHeader (ofSections sections entryPoint).header =
      .error .emptyCode := by
    have length : UInt32.ofNat sections.code.length = 0 := by
      rw [empty]
      rfl
    rw [ofSections, length]
    rfl
  rw [toBytes, List.append_assoc, List.append_assoc]
  apply ofLoadable_refused
  rw [LoadError.first?_eq, header]

/-- Bytes that pass every check hold a container, whose header is the one that they begin with. -/
theorem ofLoadable_accepted {header : Header} {rest : List UInt8}
    (first : LoadError.first? header (header.toBytes ++ rest).length = none) :
    ∃ (container : Container) (trailing : List UInt8), container.header = header ∧
      header.toBytes ++ rest = container.toBytes ++ trailing ∧
      (ofLoadable (header.toBytes ++ rest)).value = .ok container := by
  rw [LoadError.first?_eq] at first
  rw [ofLoadable_header]
  cases checked : LoadError.checkHeader header with
  | error reason =>
      rw [checked] at first
      cases first
  | ok value =>
      rw [checked] at first
      dsimp only at first
      split at first
      · cases first
      · rename_i enough
        cases found : split header (header.toBytes ++ rest) with
        | error reason =>
            have long : ¬(header.toBytes ++ rest).length <
              Header.byteSize + header.payloadLength := enough
            rw [split, if_neg long] at found
            cases found
        | ok sections =>
            obtain ⟨trailing, behind⟩ := split_sections found
            refine ⟨{ sections with header }, trailing, rfl, ?_, rfl⟩
            rw [behind]
            simp only [toBytes, List.append_assoc]

end Container

namespace Machine

/-- The machine is left as it was. -/
def refusing (machine : Machine) (error : LoadError) : Loading :=
  ⟨machine, .error (.raised (.invalidBytecode error))⟩

/-- A machine about to execute a container, of which only the limit on its fuel is older than the
container. -/
structure Fresh (limit : Option UInt32) (container : Container) (machine : Machine) : Prop where
  image : ∀ position, machine.memory.byteAt position = container.toSections.byteAt position
  general : ∀ register : Fin 8, machine.general[register] = 0
  flags : machine.flags = .clear
  pc : machine.pc = container.header.entryPoint
  pointers : machine.sp = 0x500000 ∧ machine.bp = 0x500000 ∧ machine.hp = 0x100000
  status : machine.status = .running
  fault : machine.fault = none
  codeEnd : machine.codeEnd = container.header.codeLength
  fuelLimit : machine.fuelLimit = limit
  fuel : machine.fuel = limit

theorem started_fresh (machine : Machine) {container : Container}
    (fit : container.toSections.Fit) :
    Fresh machine.fuelLimit container (machine.started container) where
  image := imageOf_byteAt fit
  general register := Vector.getElem_replicate register.isLt
  flags := rfl
  pc := UInt32.zero_add _
  pointers := ⟨rfl, rfl, rfl⟩
  status := rfl
  fault := rfl
  codeEnd := UInt32.zero_add _
  fuelLimit := rfl
  fuel := rfl

/-- A load either leaves the machine as it was, for the first of its checks that fails, or makes a
fresh machine of it, whatever the machine was before. -/
theorem loading_atomic (machine : Machine) (bytes : List UInt8) :
    (bytes.length < 22 ∧
      (machine.loading bytes).value =
        machine.refusing (.truncated (.truncated 22 bytes.length))) ∨
    ∃ (header : Header) (rest : List UInt8), bytes = header.toBytes ++ rest ∧
      match LoadError.first? header bytes.length with
      | some error => (machine.loading bytes).value = machine.refusing error
      | none => ∃ container : Container, container.header = header ∧
          Container.ofBytes bytes = .ok container ∧
          (machine.loading bytes).value.result = .ok () ∧
          Fresh machine.fuelLimit container (machine.loading bytes).value.machine ∧
          ∀ other : Machine, other.fuelLimit = machine.fuelLimit →
            (other.loading bytes).value = (machine.loading bytes).value := by
  by_cases few : bytes.length < 22
  · refine .inl ⟨few, ?_⟩
    have refused : (Container.ofLoadable bytes).value =
        .error (.truncated (.truncated 22 bytes.length)) := by
      rw [Container.ofLoadable, Header.ofBytes_short few]
      rfl
    rw [loading_eq, refused]
    rfl
  · obtain ⟨header, rest, same⟩ := Header.exists_toBytes_append bytes (Nat.le_of_not_lt few)
    refine .inr ⟨header, rest, same, ?_⟩
    subst same
    cases first : LoadError.first? header (header.toBytes ++ rest).length with
    | some error =>
        dsimp only
        rw [loading_eq, Container.ofLoadable_refused first]
        rfl
    | none =>
        obtain ⟨container, trailing, own, whole, accepted⟩ := Container.ofLoadable_accepted first
        have loadable := Container.ofLoadable_ok accepted
        refine ⟨container, own, ?_, ?_, ?_, ?_⟩
        · rw [whole]
          exact Container.ofBytes_toBytes loadable.truthful trailing
        · rw [loading_eq, accepted]
        · rw [loading_eq, accepted]
          exact machine.started_fresh loadable.fit
        · intro other limit
          rw [loading_eq, loading_eq, accepted]
          dsimp only
          rw [started, started, limit]

end Machine

end RegisterMachine
