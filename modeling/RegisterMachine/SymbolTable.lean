/-
This file binds symbols to values, once each and in the order of definition.
-/

import RegisterMachine.Interner

namespace RegisterMachine

/-- The entries in order and an index over them. -/
structure SymbolTable (α : Type) where
  entries : Array (Symbol × α)
  index : Std.TreeMap Symbol α
  indexed : ∀ name, index[name]? = entries.toList.lookup name

namespace SymbolTable

variable {α : Type}

def empty : SymbolTable α where
  entries := #[]
  index := ∅
  indexed := by simp

instance : Inhabited (SymbolTable α) := ⟨empty⟩

def size (table : SymbolTable α) : Nat :=
  table.entries.size

def toList (table : SymbolTable α) : List (Symbol × α) :=
  table.entries.toList

def lookup (table : SymbolTable α) (name : Symbol) : Option α :=
  table.index[name]?

def contains (table : SymbolTable α) (name : Symbol) : Bool :=
  (table.lookup name).isSome

theorem lookupToList (table : SymbolTable α) (name : Symbol) :
    table.lookup name = table.toList.lookup name :=
  table.indexed name

theorem lookupPush (entries : List (Symbol × α)) (name other : Symbol) (value : α) :
    (entries ++ [(name, value)]).lookup other =
      (entries.lookup other).or (if name = other then some value else none) := by
  induction entries with
  | nil =>
      by_cases same : name = other
      · subst same
        simp
      · have different : (other == name) = false := by simpa using Ne.symm same
        simp [List.lookup_cons, same, different]
  | cons entry rest inductionHypothesis =>
      obtain ⟨key, bound⟩ := entry
      cases found : other == key <;> simp [List.lookup_cons, found, inductionHypothesis]

/-- A name that is not bound gets a value. -/
def add (table : SymbolTable α) (name : Symbol) (value : α) (absent : table.lookup name = none) :
    SymbolTable α where
  entries := table.entries.push (name, value)
  index := table.index.insert name value
  indexed := by
    intro other
    rw [Array.toList_push, lookupPush, ← table.indexed other, Std.TreeMap.getElem?_insert]
    by_cases same : name = other
    · subst same
      rw [lookup] at absent
      simp [absent]
    · have different : compare name other ≠ .eq := fun equal =>
        same (Std.LawfulEqOrd.eq_of_compare equal)
      simp [same, different]

/-- A name that is bound already is refused. -/
def define? (table : SymbolTable α) (name : Symbol) (value : α) : Option (SymbolTable α) :=
  if absent : table.lookup name = none then some (table.add name value absent) else none

/-- A name that is bound already keeps its value. -/
def defineFirst (table : SymbolTable α) (name : Symbol) (value : α) : SymbolTable α :=
  if absent : table.lookup name = none then table.add name value absent else table

theorem addToList (table : SymbolTable α) (name : Symbol) (value : α)
    (absent : table.lookup name = none) :
    (table.add name value absent).toList = table.toList ++ [(name, value)] :=
  Array.toList_push

end SymbolTable

end RegisterMachine
