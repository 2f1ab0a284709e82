/-
This file defines trees that hold one byte for each position. Every level of a tree settles four
bits of the position, so that a change copies only the branches on one way down. `getSet` says
that a change is seen at its own position only.
-/

namespace RegisterMachine

/-- A tree has sixteen smaller trees as its branches, and at depth zero it is a byte. -/
def ByteTree : Nat → Type
  | 0 => UInt8
  | depth + 1 => Vector (ByteTree depth) 16

namespace ByteTree

/-- The positions of a tree. -/
def capacity (depth : Nat) : Nat := 1 <<< (4 * depth)

/-- The branch that leads to a position. -/
def branch (depth position : Nat) : Fin 16 :=
  ⟨(position >>> (4 * depth)) % 16, Nat.mod_lt _ (by decide)⟩

def zero : (depth : Nat) → ByteTree depth
  | 0 => (0 : UInt8)
  | depth + 1 => Vector.replicate 16 (zero depth)

def get : (depth : Nat) → ByteTree depth → (position : Nat) → UInt8
  | 0, byte, _ => byte
  | depth + 1, (branches : Vector (ByteTree depth) 16), position =>
      get depth branches[branch depth position] position

def set : (depth : Nat) → ByteTree depth → (position : Nat) → UInt8 → ByteTree depth
  | 0, _, _, byte => byte
  | depth + 1, (branches : Vector (ByteTree depth) 16), position, byte =>
      (⟨branches.toArray.modify (branch depth position) fun tree => set depth tree position byte,
        by simp⟩ : Vector (ByteTree depth) 16)

@[simp] theorem getZero (depth position : Nat) : (zero depth).get depth position = 0 := by
  induction depth with
  | zero => rfl
  | succ depth inductionHypothesis => simpa [zero, get] using inductionHypothesis

theorem capacityPos (depth : Nat) : 0 < capacity depth := by
  rw [capacity, Nat.one_shiftLeft]
  exact Nat.pow_pos (by decide)

theorem capacitySucc (depth : Nat) : capacity (depth + 1) = capacity depth * 16 := by
  rw [capacity, capacity, Nat.one_shiftLeft, Nat.one_shiftLeft, Nat.mul_add, Nat.pow_add]

theorem branchVal (depth position : Nat) :
    (branch depth position).val = position / capacity depth % 16 := by
  simp [branch, capacity, Nat.shiftRight_eq_div_pow, Nat.one_shiftLeft]

/-- Positions that agree in the low bits and in the branch agree one level higher. -/
theorem modCapacitySucc (depth position other : Nat) :
    position % capacity (depth + 1) = other % capacity (depth + 1) ↔
      branch depth position = branch depth other ∧
        position % capacity depth = other % capacity depth := by
  have splits (value : Nat) :
      value % capacity (depth + 1) =
        value % capacity depth + capacity depth * (branch depth value).val := by
    rw [capacitySucc, Nat.mod_mul, branchVal]
  have quotient (value : Nat) :
      (value % capacity depth + capacity depth * (branch depth value).val) / capacity depth =
        (branch depth value).val := by
    rw [Nat.add_mul_div_left _ _ (capacityPos depth),
      Nat.div_eq_of_lt (Nat.mod_lt value (capacityPos depth)), Nat.zero_add]
  rw [splits, splits]
  constructor
  · intro same
    have sameBranch : branch depth position = branch depth other := by
      apply Fin.ext
      rw [← quotient position, same, quotient other]
    rw [sameBranch] at same
    exact ⟨sameBranch, Nat.add_right_cancel same⟩
  · rintro ⟨sameBranch, sameLow⟩
    rw [sameBranch, sameLow]

theorem getSet (depth : Nat) (tree : ByteTree depth) (position other : Nat) (byte : UInt8) :
    (tree.set depth position byte).get depth other =
      if position % capacity depth = other % capacity depth then byte
      else tree.get depth other := by
  induction depth with
  | zero => simp [set, get, capacity, Nat.mod_one]
  | succ depth inductionHypothesis =>
      simp only [set, get, Fin.getElem_fin, Vector.getElem_mk, Array.getElem_modify, Fin.val_inj,
        modCapacitySucc]
      by_cases sameBranch : branch depth position = branch depth other
      · simp only [sameBranch, if_true, true_and, inductionHypothesis]
        rfl
      · simp only [sameBranch, if_false, false_and]
        rfl

end ByteTree

end RegisterMachine
