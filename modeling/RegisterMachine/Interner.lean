/-
This file stores each distinct text once and hands out symbols for texts.
-/

import RegisterMachine.Defect
import Std.Data.TreeMap

namespace RegisterMachine

/-- A handle for a text; symbols count from zero in the order of first occurrence. -/
structure Symbol where
  index : Nat
  deriving DecidableEq, Repr, Hashable

namespace Symbol

instance : Ord Symbol where
  compare first second := compare first.index second.index

instance : Std.TransOrd Symbol :=
  inferInstanceAs (Std.TransCmp (compareOn Symbol.index))

instance : Std.LawfulEqOrd Symbol where
  eq_of_compare {first second} equal := by
    cases first
    cases second
    simpa using Std.LawfulEqOrd.eq_of_compare (α := Nat) equal

end Symbol

/-- The bytes of the arena from `start` up to `stop`. -/
structure Span where
  start : Nat
  stop : Nat
  deriving DecidableEq, Repr

/-- Texts stand one after the other in the arena; the index leads from a text to its symbol. -/
structure Interner where
  arena : String
  spans : Array Span
  index : Std.TreeMap String Symbol

namespace Interner

def empty : Interner := ⟨"", #[], ∅⟩

def size (interner : Interner) : Nat :=
  interner.spans.size

/-- Number of bytes of all stored texts. -/
def arenaSize (interner : Interner) : Nat :=
  interner.arena.utf8ByteSize

def get? (interner : Interner) (text : String) : Option Symbol :=
  interner.index[text]?

/-- A text that is new goes to the end of the arena. -/
def intern (interner : Interner) (text : String) : Symbol × Interner :=
  match interner.get? text with
  | some symbol => (symbol, interner)
  | none =>
      let start := interner.arenaSize
      let symbol : Symbol := ⟨interner.size⟩
      (symbol, {
        arena := interner.arena ++ text
        spans := interner.spans.push ⟨start, start + text.utf8ByteSize⟩
        index := interner.index.insert text symbol })

def textAt (interner : Interner) (span : Span) : String :=
  String.Pos.Raw.extract interner.arena ⟨span.start⟩ ⟨span.stop⟩

def tryResolve (interner : Interner) (symbol : Symbol) : Option String :=
  interner.spans[symbol.index]?.map interner.textAt

/-- A symbol that this interner did not hand out is a defect. -/
def resolve (interner : Interner) (symbol : Symbol) : Except Defect String :=
  match interner.tryResolve symbol with
  | some text => .ok text
  | none => .error .foreignSymbol

/-- Texts in the order of first occurrence. -/
def texts (interner : Interner) : List String :=
  interner.spans.toList.map interner.textAt

/-- Symbols with their texts in the order of first occurrence. -/
def toList (interner : Interner) : List (Symbol × String) :=
  interner.texts.mapIdx fun index text => (⟨index⟩, text)

end Interner

end RegisterMachine
