/-
This file says which text a symbol stands for. In an interner that grew from an empty one, a symbol
stands for the text that it was handed out for, and it still does after more texts are interned.
-/

import Mathlib.Data.String.Basic
import RegisterMachine.Proofs.Source.Names

namespace RegisterMachine

/-- The span of a text that stands in the arena. -/
structure Span.Cuts (span : Span) (arena text : String) : Prop where
  split : ∃ before after, arena = before ++ text ++ after ∧ span.start = before.utf8ByteSize
  size : span.stop = span.start + text.utf8ByteSize

/-- What is appended to the arena moves no text. -/
theorem Span.Cuts.append {span : Span} {arena text : String} (cuts : span.Cuts arena text)
    (more : String) : span.Cuts (arena ++ more) text := by
  obtain ⟨⟨before, after, split, start⟩, size⟩ := cuts
  exact ⟨⟨before, after ++ more, by rw [split, String.append_assoc], start⟩, size⟩

namespace Interner

/-- Interners grow from an empty one, text by text. -/
inductive Built : Interner → Prop
  | empty : Built empty
  | intern {interner : Interner} (text : String) (built : Built interner) :
      Built (interner.intern text).2

/-- The symbol stands for the text. -/
def Spells (interner : Interner) (name : Symbol) (text : String) : Prop :=
  interner.tryResolve name = some text

/-- All symbols of the first interner stand for the same texts in the second one. -/
def Extends (before after : Interner) : Prop :=
  ∀ name text, before.Spells name text → after.Spells name text

/-- What holds of an interner that grew from an empty one: its spans lie in the arena, and its index
leads from a text to a symbol of that text. -/
structure Sound (interner : Interner) : Prop where
  spans : ∀ span ∈ interner.spans.toList, ∃ text, span.Cuts interner.arena text
  index : ∀ text name, interner.get? text = some name → interner.Spells name text

section Texts

variable {interner : Interner} {name : Symbol} {text other : String}

theorem Spells.unique (first : interner.Spells name text) (second : interner.Spells name other) :
    text = other :=
  Option.some.inj (first.symm.trans second)

theorem Spells.resolve (spelled : interner.Spells name text) :
    interner.resolve name = .ok text := by
  unfold Spells at spelled
  rw [Interner.resolve, spelled]

theorem Spells.of_resolve (resolved : interner.resolve name = .ok text) :
    interner.Spells name text := by
  unfold Interner.resolve at resolved
  split at resolved
  · rename_i found given
    rw [Spells, given, Except.ok.inj resolved]
  · cases resolved

theorem Knows.spells (knows : interner.Knows name) :
    interner.Spells name (interner.textOf name) :=
  .of_resolve (resolve_textOf knows)

theorem Spells.knows (spelled : interner.Spells name text) : interner.Knows name := by
  obtain ⟨span, given, _⟩ := Option.map_eq_some_iff.mp spelled
  exact (Array.getElem?_eq_some_iff.mp given).1

theorem Extends.refl (interner : Interner) : Extends interner interner :=
  fun _ _ spelled => spelled

theorem Extends.trans {first second third : Interner} (earlier : Extends first second)
    (later : Extends second third) : Extends first third :=
  fun name text spelled => later name text (earlier name text spelled)

theorem Extends.knows {before after : Interner} (grown : Extends before after)
    (knows : before.Knows name) : after.Knows name :=
  (grown name _ knows.spells).knows

/-- A longer interner spells the symbols of a shorter one as the shorter one does. -/
theorem Extends.spells_iff {before after : Interner} (grown : Extends before after)
    (knows : before.Knows name) : before.Spells name text ↔ after.Spells name text := by
  refine ⟨grown name text, fun spelled => ?_⟩
  have same := (grown name _ knows.spells).unique spelled
  rw [← same]
  exact knows.spells

end Texts

theorem textAt_cuts {interner : Interner} {span : Span} {text : String}
    (cuts : span.Cuts interner.arena text) : interner.textAt span = text := by
  obtain ⟨⟨before, after, arena, start⟩, size⟩ := cuts
  have whole : String.ofList (before.toList ++ text.toList ++ after.toList) = interner.arena := by
    rw [arena, String.ofList_append, String.ofList_append, String.ofList_toList,
      String.ofList_toList, String.ofList_toList]
  have extracted := String.extract_of_valid before.toList text.toList after.toList
  rw [whole, String.ofList_toList, String.utf8Len_toList, String.utf8Len_toList] at extracted
  rw [textAt, size, start]
  exact extracted

theorem Sound.empty : Sound empty where
  spans span member := by cases member
  index text name found := by simp [get?, Interner.empty] at found

theorem spells_of_cuts {interner : Interner} {name : Symbol} {span : Span} {text : String}
    (given : interner.spans[name.index]? = some span) (cuts : span.Cuts interner.arena text) :
    interner.Spells name text := by
  rw [Spells, tryResolve, given, Option.map_some, textAt_cuts cuts]

theorem Sound.cuts {interner : Interner} (sound : Sound interner) {name : Symbol} {text : String}
    (spelled : interner.Spells name text) :
    ∃ span, interner.spans[name.index]? = some span ∧ span.Cuts interner.arena text := by
  obtain ⟨span, given, found⟩ := Option.map_eq_some_iff.mp spelled
  obtain ⟨other, cuts⟩ := sound.spans span
    (Array.mem_toList_iff.mpr (Array.mem_of_getElem? given))
  rw [textAt_cuts cuts] at found
  rw [found] at cuts
  exact ⟨span, given, cuts⟩

section Growth

variable {interner : Interner} {text : String}

/-- The interner with a text at the end of its arena. -/
def adding (interner : Interner) (text : String) : Interner where
  arena := interner.arena ++ text
  spans := interner.spans.push ⟨interner.arenaSize, interner.arenaSize + text.utf8ByteSize⟩
  index := interner.index.insert text ⟨interner.size⟩

theorem intern_fresh (fresh : interner.get? text = none) :
    interner.intern text = (⟨interner.size⟩, interner.adding text) := by
  simp only [intern, fresh, adding]

theorem adding_cuts (interner : Interner) (text : String) :
    Span.Cuts ⟨interner.arenaSize, interner.arenaSize + text.utf8ByteSize⟩
      (interner.adding text).arena text :=
  ⟨⟨interner.arena, "", String.append_empty.symm, rfl⟩, rfl⟩

theorem adding_spells (interner : Interner) (text : String) :
    (interner.adding text).Spells ⟨interner.size⟩ text :=
  spells_of_cuts Array.getElem?_push_size (adding_cuts interner text)

theorem Sound.adding_extends (sound : Sound interner) (text : String) :
    Extends interner (interner.adding text) := by
  intro name other spelled
  obtain ⟨span, given, cuts⟩ := sound.cuts spelled
  have within : name.index < interner.spans.size := (Array.getElem?_eq_some_iff.mp given).1
  apply spells_of_cuts _ (cuts.append text)
  rw [adding, Array.getElem?_push_lt within]
  exact (Array.getElem?_eq_getElem within).symm.trans given

theorem Sound.adding (sound : Sound interner) (text : String) :
    Sound (interner.adding text) where
  spans span member := by
    rw [Interner.adding, Array.toList_push, List.mem_append, List.mem_singleton] at member
    rcases member with earlier | last
    · obtain ⟨other, cuts⟩ := sound.spans span earlier
      exact ⟨other, cuts.append text⟩
    · rw [last]
      exact ⟨text, adding_cuts interner text⟩
  index other name given := by
    rw [get?, Interner.adding, Std.TreeMap.getElem?_insert] at given
    split at given
    · rename_i same
      rw [← Std.LawfulEqOrd.eq_of_compare same, ← Option.some.inj given]
      exact adding_spells interner text
    · exact sound.adding_extends text name other (sound.index other name given)

/-- The symbol that is handed out for a text stands for it, and all others keep their texts. -/
theorem Sound.intern (sound : Sound interner) (text : String) :
    (interner.intern text).2.Sound ∧ Extends interner (interner.intern text).2 ∧
      (interner.intern text).2.Spells (interner.intern text).1 text := by
  cases found : interner.get? text with
  | none =>
      rw [intern_fresh found]
      exact ⟨sound.adding text, sound.adding_extends text, adding_spells interner text⟩
  | some name =>
      simp only [Interner.intern, found]
      exact ⟨sound, .refl interner, sound.index text name found⟩

end Growth

theorem Built.sound {interner : Interner} (built : Built interner) : Sound interner := by
  induction built with
  | empty => exact .empty
  | intern text _ inductionHypothesis => exact (inductionHypothesis.intern text).1

end Interner

end RegisterMachine
