/-
This file defines what it means that some bytes cover a section. They follow each other from the
start of the segment on, and nothing stands between them or behind them.
-/

import RegisterMachine.Proofs.Consecutive
import RegisterMachine.Proofs.Layout.Alignment
import RegisterMachine.Proofs.Machine.Image

namespace RegisterMachine

open Source

/-- Bytes and where they begin. -/
structure Piece where
  address : UInt32
  bytes : List UInt8

namespace Piece

/-- The number of the first byte. -/
def start (piece : Piece) : Nat :=
  piece.address.toNat

/-- The number of bytes. -/
def size (piece : Piece) : Nat :=
  piece.bytes.length

/-- One past the last byte. -/
def stop (piece : Piece) : Nat :=
  piece.start + piece.size

/-- A piece stands behind the bytes of the pieces before it. -/
theorem behind {base : Nat} {pieces : List Piece}
    (consecutive : Consecutive start size base pieces) :
    ∀ piece ∈ pieces, ∃ before after,
      pieces.flatMap bytes = before ++ (piece.bytes ++ after) ∧
        piece.address.toNat = base + before.length := by
  induction pieces generalizing base with
  | nil => nofun
  | cons first rest inductionHypothesis =>
      obtain ⟨begins, others⟩ := consecutive
      rw [List.forall_mem_cons]
      refine ⟨⟨[], rest.flatMap bytes, rfl, begins⟩, fun piece member => ?_⟩
      obtain ⟨before, after, parts, address⟩ := inductionHypothesis others piece member
      refine ⟨first.bytes ++ before, after, ?_, ?_⟩
      · rw [List.flatMap_cons, parts, List.append_assoc]
      · rw [address, size, List.length_append, Nat.add_assoc]

end Piece

/-- Some words are all of a section, one behind the other from the start of its segment on. -/
structure Segment.Covers (segment : Segment) (contents : List UInt8) (pieces : List Piece) :
    Prop where
  whole : pieces.flatMap Piece.bytes = contents
  consecutive : Consecutive Piece.start Piece.size segment.base.toNat pieces
  words : ∀ piece ∈ pieces,
    4 ∣ piece.address.toNat ∧ 0 < piece.bytes.length ∧ 4 ∣ piece.bytes.length
  inside : ∀ piece ∈ pieces,
    segment.base.toNat ≤ piece.address.toNat ∧ piece.stop ≤ segment.limit.toNat
  held : ∀ piece ∈ pieces, segment.Holds contents piece.address piece.bytes
  disjoint : pieces.Pairwise fun first second => first.stop ≤ second.address.toNat

/-- Consecutive words that fit a segment cover it as far as they reach. -/
theorem Segment.Covers.of_consecutive {segment : Segment} {pieces : List Piece}
    (consecutive : Consecutive Piece.start Piece.size segment.base.toNat pieces)
    (words : ∀ piece ∈ pieces, 0 < piece.bytes.length ∧ 4 ∣ piece.bytes.length)
    (fits : (pieces.flatMap Piece.bytes).length ≤ segment.size.toNat) :
    segment.Covers (pieces.flatMap Piece.bytes) pieces where
  whole := rfl
  consecutive := consecutive
  words piece member := by
    have start : 4 ∣ segment.base.toNat := by cases segment <;> decide
    have aligned := consecutive.aligned start fun other inPieces => (words other inPieces).2
    exact ⟨aligned piece member, words piece member⟩
  inside piece member := by
    obtain ⟨before, after, parts, address⟩ := Piece.behind consecutive piece member
    have segmentEnd := segment.base_add_size
    rw [parts, List.length_append, List.length_append] at fits
    rw [Piece.stop, Piece.start, Piece.size, address]
    omega
  held piece member := Piece.behind consecutive piece member
  disjoint := consecutive.disjoint

section Pieces

variable {α : Type} {bytes : α → List UInt8} {segment : Segment} {items : List α} {offset : Nat}

/-- The pieces of a segment that hold some items from an offset on. -/
def piecesFrom (bytes : α → List UInt8) (segment : Segment) :
    (offset : Nat) → List α → List Piece
  | _, [] => []
  | offset, item :: rest =>
      ⟨segment.base + UInt32.ofNat offset, bytes item⟩ ::
        piecesFrom bytes segment (offset + (bytes item).length) rest

theorem piecesFrom_bytes (bytes : α → List UInt8) (segment : Segment) (offset : Nat)
    (items : List α) :
    (piecesFrom bytes segment offset items).map Piece.bytes = items.map bytes := by
  induction items generalizing offset with
  | nil => rfl
  | cons item rest inductionHypothesis =>
      rw [piecesFrom, List.map_cons, List.map_cons, inductionHypothesis]

theorem piecesFrom_consecutive
    (fits : offset + (items.flatMap bytes).length ≤ segment.size.toNat) :
    Consecutive Piece.start Piece.size (segment.base.toNat + offset)
      (piecesFrom bytes segment offset items) := by
  induction items generalizing offset with
  | nil => trivial
  | cons item rest inductionHypothesis =>
      rw [List.flatMap_cons, List.length_append, ← Nat.add_assoc] at fits
      have room : segment.base.toNat + segment.size.toNat < 0x100000000 := by
        cases segment <;> decide
      have begins : (segment.base + UInt32.ofNat offset).toNat = segment.base.toNat + offset :=
        base_add_offset (by omega) room
      have others := inductionHypothesis fits
      refine ⟨begins, ?_⟩
      rw [Nat.add_assoc]
      exact others

/-- What holds of each item behind those before it holds of all pieces. -/
theorem piecesFrom_forall₂ {related : α → Piece → Prop}
    (each : ∀ before item after, items = before ++ item :: after →
      related item ⟨segment.base + UInt32.ofNat (offset + (before.flatMap bytes).length),
        bytes item⟩) :
    List.Forall₂ related items (piecesFrom bytes segment offset items) := by
  induction items generalizing offset with
  | nil => exact .nil
  | cons first rest inductionHypothesis =>
      refine .cons (each [] first rest rfl) (inductionHypothesis ?_)
      intro before item after split
      have later := each (first :: before) item after (by rw [split, List.cons_append])
      rw [List.flatMap_cons, List.length_append, ← Nat.add_assoc] at later
      exact later

end Pieces

end RegisterMachine
