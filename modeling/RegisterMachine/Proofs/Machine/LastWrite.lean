/-
This file describes the image after any sequence of changes. A byte is what the last successful
write to its position left there, accesses are settled by where they end, and a text runs to the next
zero or to the end of the image.
-/

import Mathlib.Data.List.Induction
import Mathlib.Data.List.TakeWhile
import RegisterMachine.Proofs.Machine.Memory

namespace RegisterMachine.Memory

/-- What changes an image. -/
inductive Change where
  | write (address : UInt32) (bytes : List UInt8)
  | writeByte (address : UInt32) (byte : UInt8)
  | writeWord (address word : UInt32)
  | clear
  deriving DecidableEq, Repr

namespace Change

def attempt (memory : Memory) : Change → Except (Abort RuntimeError) Memory
  | write address bytes => memory.write address bytes
  | writeByte address byte => memory.writeByte address byte
  | writeWord address word => memory.writeWord address word
  | clear => .ok zero

/-- A change that fails leaves the image as it is. -/
def apply (memory : Memory) (change : Change) : Memory :=
  match change.attempt memory with
  | .ok after => after
  | .error _ => memory

/-- The place of a write and the bytes that it stores; a clear is no write. -/
def stored? : Change → Option (UInt32 × List UInt8)
  | write address bytes => some (address, bytes)
  | writeByte address byte => some (address, [byte])
  | writeWord address word => some (address, Word.toBytes word)
  | clear => none

variable {change : Change} {address : UInt32} {bytes : List UInt8}

theorem attempt_write (memory : Memory) (stores : change.stored? = some (address, bytes)) :
    change.attempt memory = memory.write address bytes := by
  cases change with
  | write | writeByte | writeWord =>
      cases stores
      rfl
  | clear => cases stores

theorem attempt_clear (memory : Memory) (clears : change.stored? = none) :
    change.attempt memory = .ok zero := by
  cases change with
  | write | writeByte | writeWord => cases clears
  | clear => rfl

end Change

/-- The image after changes to a clear one. -/
def after (changes : List Change) : Memory :=
  changes.foldl Change.apply zero

/-- The byte that the last successful write to a position left there, if there is one since the
last clear, and zero otherwise. The changes are given from the last one back. -/
def lastWritten (position : Nat) : List Change → UInt8
  | [] => 0
  | change :: earlier =>
      match change.stored? with
      | none => 0
      | some (address, bytes) =>
          if covers : address.toNat + bytes.length ≤ imageSize ∧ address.toNat ≤ position ∧
              position < address.toNat + bytes.length then
            bytes[position - address.toNat]
          else lastWritten position earlier

/-- One change puts its bytes over those that were there. -/
theorem byteAt_apply (memory : Memory) (change : Change) (position : Nat) :
    (change.apply memory).byteAt position =
      match change.stored? with
      | none => 0
      | some (address, bytes) =>
          if covers : address.toNat + bytes.length ≤ imageSize ∧ address.toNat ≤ position ∧
              position < address.toNat + bytes.length then
            bytes[position - address.toNat]
          else memory.byteAt position := by
  cases stores : change.stored? with
  | none => rw [Change.apply, Change.attempt_clear memory stores, byteAtZero]
  | some pair =>
      obtain ⟨address, bytes⟩ := pair
      rw [Change.apply, Change.attempt_write memory stores, write_eq]
      by_cases fits : address.toNat + bytes.length ≤ imageSize
      · rw [if_pos fits]
        simp only [fits, true_and]
        exact memory.byteAt_setBytes address.toNat position bytes fits
      · rw [if_neg fits]
        simp only [fits, false_and, dite_false]

/-- After any changes each byte is the one that was written last. -/
theorem byteAt_after (changes : List Change) (position : Nat) :
    (after changes).byteAt position = lastWritten position changes.reverse := by
  induction changes using List.reverseRecOn with
  | nil => exact byteAtZero position
  | append_singleton changes change inductionHypothesis =>
      -- Both sides ask the last change first.
      rw [after, List.foldl_append, List.foldl_cons, List.foldl_nil, byteAt_apply,
        List.reverse_append, List.reverse_singleton, List.singleton_append, lastWritten,
        ← inductionHypothesis, after]

/-- An access gives its value if its bytes end inside the image, and raises its address if they do
not. -/
structure Settled {Value : Type} (address : UInt32) (length : Nat)
    (access : Except (Abort RuntimeError) Value) (value : Value) : Prop where
  inside : address.toNat + length ≤ imageSize → access = .ok value
  outside : ¬address.toNat + length ≤ imageSize →
    access = .error (.raised (.memoryOutOfBounds address))

theorem settled_of_eq {Value : Type} {address : UInt32} {length : Nat}
    {access : Except (Abort RuntimeError) Value} {value : Value}
    (same : access = if address.toNat + length ≤ imageSize then .ok value
      else .error (.raised (.memoryOutOfBounds address))) :
    Settled address length access value where
  inside fits := by rw [same, if_pos fits]
  outside past := by rw [same, if_neg past]

/-- Every access is settled by where its bytes end, and a write that is refused changes nothing. -/
structure Bounded (memory : Memory) : Prop where
  check : ∀ address length, Settled address length (check address length) address
  read : ∀ address length,
    Settled address length (memory.read address length) (memory.bytesAt address.toNat length)
  readByte : ∀ address,
    Settled address 1 (memory.readByte address) (memory.byteAt address.toNat)
  readWord : ∀ address,
    Settled address 4 (memory.readWord address) (memory.wordAt address.toNat)
  write : ∀ (change : Change) address bytes, change.stored? = some (address, bytes) →
    Settled address bytes.length (change.attempt memory) (memory.setBytes address.toNat bytes)
  refused : ∀ (change : Change) address bytes, change.stored? = some (address, bytes) →
    ¬address.toNat + bytes.length ≤ imageSize → change.apply memory = memory
  clear : Change.clear.attempt memory = .ok zero

theorem bounded (memory : Memory) : Bounded memory where
  check _ _ := settled_of_eq (check_eq _ _)
  read _ _ := settled_of_eq (read_eq _ _ _)
  readByte address := by
    apply settled_of_eq
    rw [readByte, read_eq]
    split
    · rfl
    · rfl
  readWord _ := settled_of_eq (readWord_eq _ _)
  write change address bytes stores := by
    apply settled_of_eq
    rw [Change.attempt_write memory stores, write_eq]
  refused change address bytes stores past := by
    rw [Change.apply, Change.attempt_write memory stores, write_eq, if_neg past]
  clear := rfl

/-- Words are read back, and each byte of a word is the one that stands at its place, so that words
that overlap agree on the bytes that they share. -/
structure Words (memory : Memory) : Prop where
  readBack : ∀ address word changed, memory.writeWord address word = .ok changed →
    changed.readWord address = .ok word
  bytewise : ∀ address word, memory.readWord address = .ok word →
    ∀ offset byte, (Word.toBytes word)[offset]? = some byte →
      memory.readByte (address + UInt32.ofNat offset) = .ok byte

theorem toBytes_wordAt (memory : Memory) (position : Nat) :
    Word.toBytes (memory.wordAt position) = memory.bytesAt position 4 := by
  rw [wordAt, Word.toBytesOfBytes]
  rfl

theorem bytesAt_getElem? {memory : Memory} {position length offset : Nat} {byte : UInt8}
    (given : (memory.bytesAt position length)[offset]? = some byte) :
    offset < length ∧ memory.byteAt (position + offset) = byte := by
  obtain ⟨inside, found⟩ := List.getElem?_eq_some_iff.mp given
  rw [bytesAt_length] at inside
  refine ⟨inside, ?_⟩
  rw [← found]
  simp [bytesAt]

theorem words (memory : Memory) : Words memory where
  readBack address word changed written := by
    rw [writeWord_eq] at written
    split at written
    case isTrue fits =>
      rw [← Except.ok.inj written, readWord_eq, if_pos fits,
        wordAt_setBytes memory address.toNat word fits]
    case isFalse => cases written
  bytewise address word read offset byte given := by
    rw [readWord_eq] at read
    split at read
    case isTrue fits =>
      rw [← Except.ok.inj read, toBytes_wordAt] at given
      obtain ⟨few, found⟩ := bytesAt_getElem? given
      have small : imageSize < 2 ^ 32 := by decide
      have place : (address + UInt32.ofNat offset).toNat = address.toNat + offset := by
        rw [UInt32.toNat_add, UInt32.toNat_ofNat']
        omega
      rw [(memory.bounded.readByte _).inside (by omega), place, found]
    case isFalse => cases read

section Texts

/-- Behind the bytes in front of the first zero stands that zero. -/
theorem getElem?_length_takeWhile {bytes : List UInt8} (zero : 0 ∈ bytes) :
    bytes[(bytes.takeWhile (· ≠ 0)).length]? = some 0 := by
  induction bytes with
  | nil => cases zero
  | cons byte bytes inductionHypothesis =>
      by_cases ends : byte = 0
      · rw [List.takeWhile_cons_of_neg (by simpa using ends), ends]
        rfl
      · have later := (List.mem_cons.mp zero).resolve_left (Ne.symm ends)
        rw [List.takeWhile_cons_of_pos (by simpa using ends), List.length_cons,
          List.getElem?_cons_succ, inductionHypothesis later]

theorem takeWhile_of_noZero {bytes : List UInt8} (noZero : 0 ∉ bytes) :
    bytes.takeWhile (· ≠ 0) = bytes :=
  List.takeWhile_eq_self_iff.mpr fun _ member =>
    decide_eq_true (ne_of_mem_of_not_mem member noZero)

/-- A text at a position is the longest run of bytes of the image without a zero. It is closed if a
zero follows it inside the image; if none does, it ends where the image does. -/
structure LongestText (memory : Memory) (position : Nat) (text : List UInt8) (closed : Bool) :
    Prop where
  bytes : memory.bytesAt position text.length = text
  inside : position + text.length ≤ imageSize
  noZero : 0 ∉ text
  terminated : closed = true ↔
    position + text.length < imageSize ∧ memory.byteAt (position + text.length) = 0
  unterminated : closed = false ↔ position + text.length = imageSize

/-- A part of the image from a position is read there. -/
theorem bytesAt_of_prefix {memory : Memory} {position length : Nat} {front : List UInt8}
    (begins : front <+: memory.bytesAt position length) :
    memory.bytesAt position front.length = front := by
  have few := begins.length_le
  rw [bytesAt_length] at few
  obtain ⟨more, split⟩ := Nat.exists_eq_add_of_le few
  rw [split, bytesAt_append] at begins
  have both := List.prefix_of_prefix_length_le begins (List.prefix_append _ _)
    (bytesAt_length memory position front.length).ge
  exact (both.eq_of_length (bytesAt_length memory position front.length).symm).symm

theorem longestText (memory : Memory) {position : Nat} (within : position < imageSize) :
    LongestText memory position
      ((memory.bytesAt position (imageSize - position)).takeWhile (· ≠ 0))
      (decide (0 ∈ memory.bytesAt position (imageSize - position))) := by
  have size := memory.bytesAt_length position (imageSize - position)
  have front := List.takeWhile_prefix (l := memory.bytesAt position (imageSize - position)) (· ≠ 0)
  have stored := bytesAt_of_prefix front
  have ended (zero : 0 ∈ memory.bytesAt position (imageSize - position)) :=
    bytesAt_getElem? (getElem?_length_takeWhile zero)
  generalize memory.bytesAt position (imageSize - position) = behind at *
  have few := front.length_le
  have whole (noZero : 0 ∉ behind) := congrArg List.length (takeWhile_of_noZero noZero)
  constructor
  case bytes => exact stored
  case inside => omega
  case noZero =>
    intro zero
    exact absurd (List.mem_takeWhile_imp zero) (by decide)
  case terminated =>
    rw [decide_eq_true_iff]
    constructor
    · intro zero
      obtain ⟨short, follows⟩ := ended zero
      exact ⟨by omega, follows⟩
    · rintro ⟨short, _⟩
      by_contra noZero
      have all := whole noZero
      omega
  case unterminated =>
    rw [decide_eq_false_iff_not]
    constructor
    · intro noZero
      have all := whole noZero
      omega
    · intro ends zero
      have short := (ended zero).1
      omega

/-- The text at an address inside the image is read, and none at another. -/
structure Texts (memory : Memory) : Prop where
  settled : ∀ address, Settled address 1 (memory.readText address) (memory.textAt address.toNat)
  refused : ∀ address, (∃ reason, memory.readText address = .error reason) ↔
    imageSize ≤ address.toNat
  longest : ∀ address text closed, memory.readText address = .ok (text, closed) →
    LongestText memory address.toNat text closed

theorem texts (memory : Memory) : Texts memory where
  settled address := settled_of_eq (readText_eq memory address)
  refused address := by
    rw [readText_eq]
    split
    case isTrue inside => exact iff_of_false nofun (Nat.not_le_of_lt inside)
    case isFalse outside => exact iff_of_true ⟨_, rfl⟩ (Nat.le_of_not_lt outside)
  longest address text closed read := by
    rw [readText_eq, textAt_eq] at read
    split at read
    case isTrue inside =>
      obtain ⟨rfl, rfl⟩ := Prod.mk.inj (Except.ok.inj read)
      exact memory.longestText inside
    case isFalse => cases read

end Texts

/-- The image is a bounded map from positions to bytes in which the last writer wins. -/
theorem after_last_writer (changes : List Change) :
    (∀ position, (after changes).byteAt position = lastWritten position changes.reverse) ∧
      Bounded (after changes) ∧ Words (after changes) ∧ Texts (after changes) :=
  ⟨byteAt_after changes, (after changes).bounded, (after changes).words, (after changes).texts⟩

end RegisterMachine.Memory
