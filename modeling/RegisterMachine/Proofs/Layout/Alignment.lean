/-
This file says where the addresses of a program can lie. Only labels lie in the code, and a label is
a whole number of instructions away from the start.
-/

import Mathlib.Algebra.BigOperators.Ring.List
import RegisterMachine.Proofs.Layout.Address

namespace RegisterMachine.Source

variable {α : Type} {size : α → Nat} {wanted : α → Bool}

/-- An item that is found has its offset from the items before it. -/
theorem offset?_split {items : List α} {offset : Nat}
    (found : offset? size wanted items = some offset) :
    ∃ before item after, items = before ++ item :: after ∧ wanted item ∧
      offset = (before.map size).sum := by
  induction items generalizing offset with
  | nil => cases found
  | cons first rest inductionHypothesis =>
      rw [offset?] at found
      split at found
      · rename_i isWanted
        exact ⟨[], first, rest, rfl, isWanted, (Option.some.inj found).symm⟩
      · obtain ⟨further, later, same⟩ := Option.map_eq_some_iff.mp found
        obtain ⟨before, item, after, split, isWanted, sum⟩ := inductionHypothesis later
        refine ⟨first :: before, item, after, ?_, isWanted, ?_⟩
        · rw [split, List.cons_append]
        · rw [List.map_cons, List.sum_cons, ← sum, same]

/-- No more bytes come before an item than there are. -/
theorem offset?_le {items : List α} {offset : Nat}
    (found : offset? size wanted items = some offset) : offset ≤ (items.map size).sum := by
  obtain ⟨before, item, after, split, _, sum⟩ := offset?_split found
  rw [sum, split, List.map_append, List.sum_append]
  exact Nat.le_add_right _ _

/-- Items of whole units are whole units apart. -/
theorem offset?_dvd {unit : Nat} (whole : ∀ item, unit ∣ size item) {items : List α}
    {offset : Nat} (found : offset? size wanted items = some offset) : unit ∣ offset := by
  obtain ⟨before, _, _, _, _, sum⟩ := offset?_split found
  rw [sum]
  apply List.dvd_sum
  intro length member
  obtain ⟨item, _, same⟩ := List.mem_map.mp member
  rw [← same]
  exact whole item

theorem Line.codeSize_dvd (line : Line) : RegisterMachine.Instruction.byteSize ∣ line.codeSize := by
  cases line with
  | instruction content => exact Nat.dvd_refl _
  | label name | directive named operands => exact Nat.dvd_zero _

/-- An offset into a segment does not wrap. -/
theorem base_add_offset {base : UInt32} {offset limit : Nat} (within : offset ≤ limit)
    (fits : base.toNat + limit < 0x100000000) :
    (base + UInt32.ofNat offset).toNat = base.toNat + offset := by
  rw [UInt32.toNat_add, UInt32.toNat_ofNat', Nat.mod_eq_of_lt (a := offset) (by omega),
    Nat.mod_eq_of_lt (by omega)]

/-- A label is a whole number of instructions away from the start of the code. -/
theorem labelAddress?_dvd {lines : List Line} {name : Symbol} {address : UInt32}
    (fits : codeSize lines ≤ Segment.code.size.toNat)
    (found : labelAddress? lines name = some address) :
    RegisterMachine.Instruction.byteSize ∣ address.toNat := by
  obtain ⟨offset, place, same⟩ := Option.map_eq_some_iff.mp found
  have within : offset ≤ codeSize lines := offset?_le place
  rw [← same, base_add_offset (Nat.le_trans within fits) (by decide)]
  exact Nat.dvd_add (by decide) (offset?_dvd Line.codeSize_dvd place)

/-- Data lies past the code. -/
theorem dataAddress?_pastCode {interner : Interner} {lines : List Line} {name : Symbol}
    {address : UInt32}
    (fits : (lines.flatMap (Line.dataBytes interner)).length ≤ Segment.data.size.toNat)
    (found : dataAddress? interner lines name = some address) :
    Segment.code.limit.toNat ≤ address.toNat := by
  obtain ⟨offset, place, same⟩ := Option.map_eq_some_iff.mp found
  have within := offset?_le place
  rw [← List.length_flatMap] at within
  have low : Segment.code.limit.toNat ≤ Segment.data.base.toNat := by decide
  rw [← same, base_add_offset (Nat.le_trans within fits) (by decide)]
  exact Nat.le_trans low (Nat.le_add_right _ _)

/-- Constants lie past the code. -/
theorem Constant.address?_pastCode {interner : Interner} {placed : List Constant}
    {wanted : Constant → Bool} {address : UInt32}
    (fits : (placed.flatMap (Constant.bytes interner)).length ≤ Segment.rodata.size.toNat)
    (found : address? interner wanted placed = some address) :
    Segment.code.limit.toNat ≤ address.toNat := by
  obtain ⟨offset, place, same⟩ := Option.map_eq_some_iff.mp found
  have within := offset?_le place
  rw [← List.length_flatMap] at within
  have low : Segment.code.limit.toNat ≤ Segment.rodata.base.toNat := by decide
  rw [← same, base_add_offset (Nat.le_trans within fits) (by decide)]
  exact Nat.le_trans low (Nat.le_add_right _ _)

/-- A name whose address is in the code is a label. -/
theorem symbolAddress?_label {interner : Interner} {lines : List Line} {name : Symbol}
    {address : UInt32}
    (rodata : ((constants lines).flatMap (Constant.bytes interner)).length ≤
      Segment.rodata.size.toNat)
    (data : (lines.flatMap (Line.dataBytes interner)).length ≤ Segment.data.size.toNat)
    (found : symbolAddress? interner lines name = some address)
    (inCode : address.toNat < Segment.code.limit.toNat) :
    labelAddress? lines name = some address := by
  rw [symbolAddress?, Option.or_eq_some_iff, Option.or_eq_some_iff] at found
  rcases found with label | ⟨_, datum | ⟨_, constant⟩⟩
  · exact label
  · exact absurd inCode (Nat.not_lt_of_le (dataAddress?_pastCode data datum))
  · exact absurd inCode (Nat.not_lt_of_le (Constant.address?_pastCode rodata constant))

/-- A name stands for the start of an instruction or for an address past the code. -/
theorem symbolAddress?_aligned {interner : Interner} {lines : List Line} {name : Symbol}
    {address : UInt32} (code : codeSize lines ≤ Segment.code.size.toNat)
    (rodata : ((constants lines).flatMap (Constant.bytes interner)).length ≤
      Segment.rodata.size.toNat)
    (data : (lines.flatMap (Line.dataBytes interner)).length ≤ Segment.data.size.toNat)
    (found : symbolAddress? interner lines name = some address)
    (inCode : address.toNat < Segment.code.limit.toNat) :
    RegisterMachine.Instruction.byteSize ∣ address.toNat :=
  labelAddress?_dvd code (symbolAddress?_label rodata data found inCode)

end RegisterMachine.Source
