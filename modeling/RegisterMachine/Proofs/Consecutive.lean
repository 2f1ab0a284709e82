/-
This file says what it means that items stand in memory back to back. Items are anything with an
address and a size, so that bytes of a section and texts on a heap have the same laws.
-/

import Mathlib.Order.Basic

namespace RegisterMachine

/-- Each item begins where the one before it ends, and the first begins at the base. -/
def Consecutive {α : Type} (address size : α → Nat) : (base : Nat) → List α → Prop
  | _, [] => True
  | base, first :: rest => address first = base ∧ Consecutive address size (base + size first) rest

/-- The number of bytes that items take together. -/
def totalSize {α : Type} (size : α → Nat) : List α → Nat
  | [] => 0
  | first :: rest => size first + totalSize size rest

section Items

variable {α : Type} {address size : α → Nat} {base : Nat} {items : List α}

theorem totalSize_append (size : α → Nat) (items : List α) (last : α) :
    totalSize size (items ++ [last]) = totalSize size items + size last := by
  induction items with
  | nil => exact Nat.add_comm ..
  | cons first rest inductionHypothesis =>
      rw [List.cons_append, totalSize, inductionHypothesis, totalSize, Nat.add_assoc]

namespace Consecutive

theorem append {last : α} (consecutive : Consecutive address size base items)
    (behind : address last = base + totalSize size items) :
    Consecutive address size base (items ++ [last]) := by
  induction items generalizing base with
  | nil => exact ⟨behind, trivial⟩
  | cons first rest inductionHypothesis =>
      refine ⟨consecutive.1, inductionHypothesis consecutive.2 ?_⟩
      rw [behind, totalSize, Nat.add_assoc]

/-- Consecutive items lie between the base and the sum of their sizes. -/
theorem within (consecutive : Consecutive address size base items) :
    ∀ item ∈ items,
      base ≤ address item ∧ address item + size item ≤ base + totalSize size items := by
  induction items generalizing base with
  | nil => nofun
  | cons first rest inductionHypothesis =>
      obtain ⟨begins, others⟩ := consecutive
      have total : totalSize size (first :: rest) = size first + totalSize size rest := rfl
      rw [List.forall_mem_cons, total]
      refine ⟨⟨Nat.le_of_eq begins.symm, ?_⟩, fun item member => ?_⟩
      · omega
      · obtain ⟨low, high⟩ := inductionHypothesis others item member
        omega

/-- Consecutive items do not overlap. -/
theorem disjoint (consecutive : Consecutive address size base items) :
    items.Pairwise fun earlier later => address earlier + size earlier ≤ address later := by
  induction items generalizing base with
  | nil => exact .nil
  | cons first rest inductionHypothesis =>
      obtain ⟨begins, others⟩ := consecutive
      refine .cons (fun later member => ?_) (inductionHypothesis others)
      rw [begins]
      exact (others.within later member).1

theorem aligned {unit : Nat} (consecutive : Consecutive address size base items)
    (start : unit ∣ base) (whole : ∀ item ∈ items, unit ∣ size item) :
    ∀ item ∈ items, unit ∣ address item := by
  induction items generalizing base with
  | nil => nofun
  | cons first rest inductionHypothesis =>
      obtain ⟨begins, others⟩ := consecutive
      rw [List.forall_mem_cons] at whole ⊢
      refine ⟨begins ▸ start, ?_⟩
      exact inductionHypothesis others (Nat.dvd_add start whole.1) whole.2

end Consecutive

end Items

end RegisterMachine
