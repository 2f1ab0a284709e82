/-
This file says what an interner holds after any sequence of texts. Its arena is made of the distinct
texts in the order of first occurrence, its spans divide the arena between them, and its index leads
from each of them to its place.
-/

import Mathlib.Algebra.Ring.Nat
import Mathlib.Data.List.Induction
import Mathlib.Data.List.Nodup
import RegisterMachine.Proofs.Source.Spelling

namespace RegisterMachine

section Sizes

/-- Number of bytes of several texts. -/
def totalBytes (texts : List String) : Nat :=
  (texts.map String.utf8ByteSize).sum

theorem totalBytes_append (first second : List String) :
    totalBytes (first ++ second) = totalBytes first + totalBytes second := by
  rw [totalBytes, List.map_append, List.sum_append]
  rfl

theorem totalBytes_cons (text : String) (texts : List String) :
    totalBytes (text :: texts) = text.utf8ByteSize + totalBytes texts := by
  rw [totalBytes, List.map_cons, List.sum_cons]
  rfl

theorem totalBytes_singleton (text : String) : totalBytes [text] = text.utf8ByteSize :=
  totalBytes_cons text []

theorem join_utf8ByteSize (texts : List String) :
    (String.join texts).utf8ByteSize = totalBytes texts := by
  induction texts with
  | nil => rfl
  | cons text texts inductionHypothesis =>
      rw [String.join_cons, String.utf8ByteSize_append, totalBytes_cons, inductionHypothesis]

/-- At most one of several distinct texts is empty, and each other one has a byte. -/
theorem length_le_totalBytes {texts : List String} (distinct : texts.Nodup) :
    texts.length ≤ totalBytes texts + if "" ∈ texts then 1 else 0 := by
  induction texts with
  | nil => exact Nat.zero_le _
  | cons text texts inductionHypothesis =>
      obtain ⟨fresh, others⟩ := List.nodup_cons.mp distinct
      have few := inductionHypothesis others
      rw [totalBytes_cons, List.length_cons]
      by_cases empty : text = ""
      · rw [empty] at fresh ⊢
        rw [if_neg fresh] at few
        rw [if_pos List.mem_cons_self]
        omega
      · have byte : 0 < text.utf8ByteSize :=
          Nat.pos_of_ne_zero (mt String.utf8ByteSize_eq_zero_iff.mp empty)
        simp only [List.mem_cons, Ne.symm empty, false_or]
        omega

end Sizes

section Distinct

variable {Item : Type} [DecidableEq Item] {items : List Item}

theorem eraseDups_eq_self (distinct : items.Nodup) : items.eraseDups = items := by
  induction items with
  | nil => rfl
  | cons item items inductionHypothesis =>
      obtain ⟨fresh, others⟩ := List.nodup_cons.mp distinct
      have kept : ∀ other ∈ items, !other == item := by
        intro other member
        rw [Bool.not_eq_true', beq_eq_false_iff_ne]
        exact ne_of_mem_of_not_mem member fresh
      rw [List.eraseDups_cons, List.filter_eq_self.mpr kept, inductionHypothesis others]

/-- The items that are held after one more. -/
def including (items : List Item) (item : Item) : List Item :=
  if item ∈ items then items else items ++ [item]

theorem mem_including (items : List Item) (item : Item) : item ∈ including items item := by
  unfold including
  split
  case isTrue known => exact known
  case isFalse => exact List.mem_append_right _ (List.mem_singleton_self item)

/-- An item that was there before adds nothing to the distinct ones. -/
theorem including_append_eraseDups (items : List Item) (item : Item) (rest : List Item) :
    (including items item ++ rest).eraseDups = (items ++ item :: rest).eraseDups := by
  unfold including
  split
  case isTrue known =>
    rw [List.eraseDups_append, List.eraseDups_append, List.cons_removeAll,
      if_neg (by simpa using known)]
  case isFalse => rw [List.append_assoc, List.singleton_append]

/-- The place of an item does not change when further items follow. -/
theorem idxOf_eraseDups (distinct : items.Nodup) {item : Item} (member : item ∈ items)
    (rest : List Item) : (items ++ rest).eraseDups.idxOf item = items.idxOf item := by
  rw [List.eraseDups_append, eraseDups_eq_self distinct, List.idxOf_append_of_mem member]

theorem eraseDups_append_singleton (items : List Item) (item : Item) :
    (items ++ [item]).eraseDups = including items.eraseDups item := by
  rw [List.eraseDups_append, List.cons_removeAll, including]
  by_cases known : item ∈ items
  · rw [if_neg (by simpa using known), if_pos (List.mem_eraseDups.mpr known)]
    exact List.append_nil _
  · rw [if_pos (by simpa using known), if_neg (mt List.mem_eraseDups.mp known)]
    rfl

/-- A function that tells the items apart keeps the order of their first occurrences. -/
theorem eraseDups_map {Image : Type} [DecidableEq Image] (image : Item → Image)
    (apart : ∀ first ∈ items, ∀ second ∈ items, image first = image second → first = second) :
    (items.map image).eraseDups = items.eraseDups.map image := by
  induction items using List.reverseRecOn with
  | nil => rfl
  | append_singleton items item inductionHypothesis =>
      -- From the end, since a last item is new exactly if its image is.
      have earlier := inductionHypothesis fun first firstMember second secondMember =>
        apart first (List.mem_append_left _ firstMember) second
          (List.mem_append_left _ secondMember)
      have known : image item ∈ items.eraseDups.map image ↔ item ∈ items.eraseDups := by
        refine ⟨fun member => ?_, List.mem_map_of_mem⟩
        obtain ⟨other, there, same⟩ := List.mem_map.mp member
        have inside := List.mem_eraseDups.mp there
        rw [← apart other (List.mem_append_left _ inside) item (by simp) same]
        exact there
      rw [List.map_append, List.map_singleton, eraseDups_append_singleton, earlier,
        eraseDups_append_singleton, including, including]
      simp only [known]
      split
      · rfl
      · rw [List.map_append, List.map_singleton]

theorem map_idxOf (distinct : items.Nodup) :
    items.map (items.idxOf ·) = List.range items.length := by
  apply List.ext_getElem
  · rw [List.length_map, List.length_range]
  · intro index inside _
    rw [List.length_map] at inside
    rw [List.getElem_map, List.getElem_range, distinct.idxOf_getElem index inside]

end Distinct

namespace Interner

/-- The symbols that are handed out for a sequence of texts, and the interner after it. -/
def internAll (interner : Interner) : List String → List Symbol × Interner
  | [] => ([], interner)
  | text :: rest =>
      let next := interner.intern text
      let last := next.2.internAll rest
      (next.1 :: last.1, last.2)

/-- The bytes behind all earlier texts, up to the next text. -/
def spanAt (texts : List String) (index : Nat) : Span where
  start := totalBytes (texts.take index)
  stop := totalBytes (texts.take (index + 1))

/-- An interner holds distinct texts one after the other. -/
structure Represents (interner : Interner) (texts : List String) : Prop where
  distinct : texts.Nodup
  arena : interner.arena = String.join texts
  spans : interner.spans.toList = (List.range texts.length).map (spanAt texts)
  index : ∀ text, interner.get? text = if text ∈ texts then some ⟨texts.idxOf text⟩ else none

theorem intern_known {interner : Interner} {text : String} {name : Symbol}
    (known : interner.get? text = some name) : interner.intern text = (name, interner) := by
  simp only [intern, known]

theorem represents_empty : Represents empty [] where
  distinct := List.nodup_nil
  arena := rfl
  spans := rfl
  index text := by simp [get?, empty]

section Spans

variable {texts : List String} {text : String} {index : Nat}

theorem spanAt_append (inside : index < texts.length) (more : List String) :
    spanAt (texts ++ more) index = spanAt texts index := by
  rw [spanAt, spanAt, List.take_append_of_le_length (Nat.le_of_lt inside),
    List.take_append_of_le_length inside]

theorem spanAt_end (texts : List String) (text : String) :
    spanAt (texts ++ [text]) texts.length =
      ⟨totalBytes texts, totalBytes texts + text.utf8ByteSize⟩ := by
  have whole : (texts ++ [text]).take (texts.length + 1) = texts ++ [text] :=
    List.take_of_length_le (by simp)
  rw [spanAt, whole, List.take_left, totalBytes_append, totalBytes_singleton]

theorem spanAt_stop (inside : texts[index]? = some text) :
    (spanAt texts index).stop = (spanAt texts index).start + text.utf8ByteSize := by
  rw [spanAt, List.take_add_one, inside, Option.toList_some, totalBytes_append,
    totalBytes_singleton]

/-- A span cuts its own text out of the texts that stand one after the other. -/
theorem spanAt_cuts (inside : texts[index]? = some text) :
    (spanAt texts index).Cuts (String.join texts) text where
  split := by
    obtain ⟨within, rfl⟩ := List.getElem?_eq_some_iff.mp inside
    refine ⟨String.join (texts.take index), String.join (texts.drop (index + 1)), ?_, ?_⟩
    · rw [String.append_assoc, ← String.join_cons, ← String.join_append,
        List.getElem_cons_drop, List.take_append_drop]
    · exact (join_utf8ByteSize _).symm
  size := spanAt_stop inside

end Spans

namespace Represents

variable {interner : Interner} {texts : List String} {text : String}

theorem arenaSize (represents : Represents interner texts) :
    interner.arenaSize = totalBytes texts := by
  rw [Interner.arenaSize, represents.arena, join_utf8ByteSize]

theorem spans_length (represents : Represents interner texts) :
    interner.spans.toList.length = texts.length := by
  rw [represents.spans, List.length_map, List.length_range]

theorem size (represents : Represents interner texts) : interner.size = texts.length := by
  rw [Interner.size, ← Array.length_toList, represents.spans_length]

theorem adding (represents : Represents interner texts) (fresh : text ∉ texts) :
    Represents (interner.adding text) (texts ++ [text]) where
  distinct := represents.distinct.append (List.nodup_singleton text)
    (List.disjoint_singleton.mpr fresh)
  arena := by
    rw [Interner.adding, represents.arena, String.join_append, String.join_cons, String.join_nil,
      String.append_empty]
  spans := by
    have earlier : (List.range texts.length).map (spanAt (texts ++ [text])) =
        (List.range texts.length).map (spanAt texts) :=
      List.map_congr_left fun index member => spanAt_append (List.mem_range.mp member) [text]
    rw [Interner.adding, Array.toList_push, represents.spans, represents.arenaSize,
      List.length_append, List.length_singleton, List.range_succ, List.map_append, earlier,
      List.map_singleton, spanAt_end]
  index other := by
    rw [get?, Interner.adding, Std.TreeMap.getElem?_insert]
    by_cases same : text = other
    · rw [← same, if_pos Std.ReflCmp.compare_self, if_pos (by simp), represents.size,
        List.idxOf_append_of_notMem fresh, List.idxOf_cons_self, Nat.add_zero]
    · have different : compare text other ≠ .eq := mt Std.LawfulEqOrd.eq_of_compare same
      rw [if_neg different]
      have known := represents.index other
      rw [get?] at known
      rw [known]
      by_cases member : other ∈ texts
      · rw [if_pos member, if_pos (List.mem_append_left _ member), List.idxOf_append_of_mem member]
      · rw [if_neg member, if_neg]
        rw [List.mem_append, List.mem_singleton, not_or]
        exact ⟨member, Ne.symm same⟩

/-- A text gets the number of its place, and is stored unless it is there. -/
theorem intern (represents : Represents interner texts) (text : String) :
    (interner.intern text).1 = ⟨(including texts text).idxOf text⟩ ∧
      Represents (interner.intern text).2 (including texts text) := by
  unfold including
  split
  case isTrue known =>
    have found := represents.index text
    rw [if_pos known] at found
    rw [intern_known found]
    exact ⟨rfl, represents⟩
  case isFalse fresh =>
    have missing := represents.index text
    rw [if_neg fresh] at missing
    rw [intern_fresh missing, List.idxOf_append_of_notMem fresh, List.idxOf_cons_self,
      Nat.add_zero, represents.size]
    exact ⟨rfl, represents.adding fresh⟩

/-- After a sequence of texts the distinct ones are held, and each text got the number of its place
among them. -/
theorem internAll (represents : Represents interner texts) (more : List String) :
    (interner.internAll more).1 =
        more.map (fun text => ⟨(texts ++ more).eraseDups.idxOf text⟩) ∧
      Represents (interner.internAll more).2 (texts ++ more).eraseDups := by
  induction more generalizing interner texts with
  | nil =>
      rw [List.append_nil, eraseDups_eq_self represents.distinct]
      exact ⟨rfl, represents⟩
  | cons text rest inductionHypothesis =>
      obtain ⟨name, next⟩ := represents.intern text
      obtain ⟨names, last⟩ := inductionHypothesis next
      -- The first symbol is still right at the end, as places do not change.
      have place := idxOf_eraseDups next.distinct (mem_including texts text) rest
      rw [including_append_eraseDups] at names last place
      refine ⟨?_, last⟩
      rw [Interner.internAll, List.map_cons, ← names, name, place]

theorem spans_getElem? (represents : Represents interner texts) {index : Nat}
    (inside : index < texts.length) : interner.spans[index]? = some (spanAt texts index) := by
  rw [← Array.getElem?_toList, represents.spans, List.getElem?_map, List.getElem?_range inside,
    Option.map_some]

theorem spells (represents : Represents interner texts) {index : Nat}
    (inside : texts[index]? = some text) : interner.Spells ⟨index⟩ text := by
  apply spells_of_cuts
    (represents.spans_getElem? (List.getElem?_eq_some_iff.mp inside).1)
  rw [represents.arena]
  exact spanAt_cuts inside

end Represents

section Leads

variable {interner : Interner} {name : Symbol} {text : String}

/-- A symbol leads to a text however it is looked up. -/
structure Leads (interner : Interner) (name : Symbol) (text : String) : Prop where
  resolve : interner.resolve name = .ok text
  tryResolve : interner.tryResolve name = some text
  listed : interner.toList[name.index]? = some (name, text)

theorem texts_getElem? (interner : Interner) (index : Nat) :
    interner.texts[index]? = interner.tryResolve ⟨index⟩ := by
  rw [texts, List.getElem?_map, Array.getElem?_toList, tryResolve]

theorem Spells.leads (spelled : interner.Spells name text) : Leads interner name text where
  resolve := spelled.resolve
  tryResolve := spelled
  listed := by
    have given : interner.texts[name.index]? = some text :=
      (interner.texts_getElem? name.index).trans spelled
    rw [toList, List.getElem?_mapIdx, given, Option.map_some]

theorem tryResolve_eq_none :
    interner.tryResolve name = none ↔ interner.size ≤ name.index := by
  rw [tryResolve, Option.map_eq_none_iff, Array.getElem?_eq_none_iff, size]

end Leads

/-- Spans divide an arena between texts: the first one begins where the arena does, each further one
where the one before it ends, the last one ends where the arena does, and each cuts its text out on
the boundaries of characters. -/
structure Divides (spans : List Span) (arena : String) (texts : List String) : Prop where
  count : spans.length = texts.length
  first : ∀ span, spans[0]? = some span → span.start = 0
  next : ∀ (index : Nat) span following, spans[index]? = some span →
    spans[index + 1]? = some following → following.start = span.stop
  last : ∀ span, spans.getLast? = some span → span.stop = arena.utf8ByteSize
  none : spans = [] → arena = ""
  cuts : ∀ (index : Nat) span text, spans[index]? = some span → texts[index]? = some text →
    span.Cuts arena text

namespace Represents

variable {interner : Interner} {texts : List String} {text : String}

theorem spans_eq_some (represents : Represents interner texts) {index : Nat} {span : Span}
    (given : interner.spans.toList[index]? = some span) :
    index < texts.length ∧ span = spanAt texts index := by
  have inside := (List.getElem?_eq_some_iff.mp given).1
  rw [represents.spans_length] at inside
  rw [Array.getElem?_toList, represents.spans_getElem? inside] at given
  exact ⟨inside, (Option.some.inj given).symm⟩

theorem divides (represents : Represents interner texts) :
    Divides interner.spans.toList interner.arena texts where
  count := represents.spans_length
  first span given := by
    rw [(represents.spans_eq_some given).2]
    rfl
  next index span following given givenNext := by
    rw [(represents.spans_eq_some given).2, (represents.spans_eq_some givenNext).2, spanAt, spanAt]
  last span given := by
    rw [List.getLast?_eq_getElem?, represents.spans_length] at given
    obtain ⟨inside, rfl⟩ := represents.spans_eq_some given
    have whole : texts.take (texts.length - 1 + 1) = texts :=
      List.take_of_length_le (by omega)
    rw [represents.arena, join_utf8ByteSize, spanAt, whole]
  none empty := by
    have length := represents.spans_length
    rw [empty, List.length_nil] at length
    rw [represents.arena, List.length_eq_zero_iff.mp length.symm, String.join_nil]
  cuts index span text given inside := by
    rw [(represents.spans_eq_some given).2, represents.arena]
    exact spanAt_cuts inside

theorem texts_eq (represents : Represents interner texts) : interner.texts = texts := by
  apply List.ext_getElem?
  intro index
  rw [texts_getElem?]
  by_cases inside : index < texts.length
  · rw [List.getElem?_eq_getElem inside]
    exact represents.spells (List.getElem?_eq_getElem inside)
  · rw [List.getElem?_eq_none (Nat.le_of_not_lt inside), tryResolve_eq_none, represents.size]
    exact Nat.le_of_not_lt inside

/-- Spans fit in words, and so do symbols: there is at most one symbol more than bytes. -/
theorem words (represents : Represents interner texts) (fits : totalBytes texts < 2 ^ 32) :
    (∀ span ∈ interner.spans.toList, span.start ≤ span.stop ∧ span.stop < 2 ^ 32) ∧
      interner.size ≤ 2 ^ 32 := by
  constructor
  · intro span member
    obtain ⟨index, inside, given⟩ := List.getElem_of_mem member
    obtain ⟨within, rfl⟩ :=
      represents.spans_eq_some ((List.getElem?_eq_getElem inside).trans (congrArg some given))
    have whole := totalBytes_append (texts.take (index + 1)) (texts.drop (index + 1))
    rw [List.take_append_drop] at whole
    have size := spanAt_stop (List.getElem?_eq_getElem within)
    have stop : (spanAt texts index).stop = totalBytes (texts.take (index + 1)) := rfl
    omega
  · have few := length_le_totalBytes represents.distinct
    rw [represents.size]
    split at few <;> omega

end Represents

/-- The symbol of a text is the number of its place among the distinct texts, which stand in the
order of first occurrence. -/
def placeName (texts : List String) (text : String) : Symbol :=
  ⟨texts.eraseDups.idxOf text⟩

/-- What holds of the symbols that were handed out for a sequence of texts, and of the interner
after it. A call is a text with the symbol that it got. -/
structure Interned (texts : List String) (names : List Symbol) (interner : Interner) : Prop where
  places : names = texts.map (placeName texts)
  numbered : names.eraseDups = (List.range interner.size).map Symbol.mk
  same : ∀ first ∈ texts.zip names, ∀ second ∈ texts.zip names,
    first.2 = second.2 ↔ first.1 = second.1
  leads : ∀ call ∈ texts.zip names, Leads interner call.2 call.1
  found : ∀ text name, interner.get? text = some name ↔ (text, name) ∈ texts.zip names
  missing : ∀ text, interner.get? text = none ↔ text ∉ texts
  again : ∀ call ∈ texts.zip names, interner.intern call.1 = (call.2, interner)
  foreign : ∀ name, interner.tryResolve name = none ↔ interner.size ≤ name.index
  stored : interner.texts = texts.eraseDups
  arena : interner.arena = String.join texts.eraseDups
  divides : Divides interner.spans.toList interner.arena texts.eraseDups
  nameWords : ∀ name ∈ names, name.index < 2 ^ 32
  spanWords : ∀ span ∈ interner.spans.toList, span.start ≤ span.stop ∧ span.stop < 2 ^ 32

section Run

variable {texts : List String}

theorem placeName_injOn : ∀ first ∈ texts, ∀ second ∈ texts,
    placeName texts first = placeName texts second → first = second := by
  intro first member second _ same
  exact (List.idxOf_inj (List.mem_eraseDups.mpr member)).mp (Symbol.mk.inj same)

theorem mem_zip_placeName {call : String × Symbol} :
    call ∈ texts.zip (texts.map (placeName texts)) ↔
      call.1 ∈ texts ∧ call.2 = placeName texts call.1 := by
  rw [← List.map_prod_left_eq_zip, List.mem_map]
  constructor
  · rintro ⟨text, member, rfl⟩
    exact ⟨member, rfl⟩
  · rintro ⟨member, same⟩
    exact ⟨call.1, member, Prod.ext rfl same.symm⟩

theorem Represents.interned {interner : Interner}
    (represents : Represents interner texts.eraseDups)
    (fits : totalBytes texts.eraseDups < 2 ^ 32) :
    Interned texts (texts.map (placeName texts)) interner where
  places := rfl
  numbered := by
    rw [eraseDups_map _ placeName_injOn, represents.size, ← map_idxOf represents.distinct,
      List.map_map]
    rfl
  same first firstMember second secondMember := by
    obtain ⟨firstThere, firstPlace⟩ := mem_zip_placeName.mp firstMember
    obtain ⟨secondThere, secondPlace⟩ := mem_zip_placeName.mp secondMember
    rw [firstPlace, secondPlace]
    exact ⟨placeName_injOn _ firstThere _ secondThere, congrArg _⟩
  leads call member := by
    obtain ⟨there, place⟩ := mem_zip_placeName.mp member
    rw [place]
    exact (represents.spells (List.getElem?_idxOf (List.mem_eraseDups.mpr there))).leads
  found text name := by
    rw [represents.index, mem_zip_placeName, Option.ite_none_right_eq_some, List.mem_eraseDups,
      Option.some.injEq, placeName, eq_comm]
  missing text := by
    rw [represents.index, ite_eq_right_iff, List.mem_eraseDups]
    constructor
    · intro none member
      cases none member
    · intro absent member
      exact absurd member absent
  again call member := by
    obtain ⟨there, place⟩ := mem_zip_placeName.mp member
    apply intern_known
    rw [represents.index, if_pos (List.mem_eraseDups.mpr there), place, placeName]
  foreign _ := tryResolve_eq_none
  stored := represents.texts_eq
  arena := represents.arena
  divides := represents.divides
  nameWords := by
    intro name member
    obtain ⟨text, there, rfl⟩ := List.mem_map.mp member
    have inside := List.idxOf_lt_length_of_mem (List.mem_eraseDups.mpr there)
    have few := (represents.words fits).2
    rw [represents.size] at few
    exact Nat.lt_of_lt_of_le inside few
  spanWords := (represents.words fits).1

theorem internAll_append (interner : Interner) (texts later : List String) :
    interner.internAll (texts ++ later) =
      let now := interner.internAll texts
      let afterwards := now.2.internAll later
      (now.1 ++ afterwards.1, afterwards.2) := by
  induction texts generalizing interner with
  | nil => rfl
  | cons text texts inductionHypothesis =>
      rw [List.cons_append, internAll, inductionHypothesis]
      rfl

theorem internAll_empty_interned (fits : totalBytes texts.eraseDups < 2 ^ 32) :
    Interned texts (empty.internAll texts).1 (empty.internAll texts).2 := by
  obtain ⟨names, represents⟩ := represents_empty.internAll texts
  rw [List.nil_append] at names represents
  rw [names]
  exact represents.interned fits

end Run

/-- After any sequence of texts the symbols number the distinct texts in the order of first
occurrence, and arena, spans and index agree on them. A symbol leads to its text for good, whichever
texts follow. -/
theorem internAll_interned (texts later : List String)
    (fits : totalBytes (texts ++ later).eraseDups < 2 ^ 32) :
    let now := empty.internAll texts
    let afterwards := now.2.internAll later
    Interned texts now.1 now.2 ∧
      (∀ call ∈ texts.zip now.1, Leads afterwards.2 call.2 call.1) ∧
      Interned (texts ++ later) (now.1 ++ afterwards.1) afterwards.2 := by
  intro now afterwards
  have earlier : totalBytes texts.eraseDups < 2 ^ 32 := by
    rw [List.eraseDups_append, totalBytes_append] at fits
    omega
  have before := internAll_empty_interned earlier
  have whole := internAll_empty_interned fits
  rw [internAll_append] at whole
  refine ⟨before, fun call member => whole.leads call ?_, whole⟩
  have calls : texts.length = now.1.length := by
    rw [before.places, List.length_map]
  rw [List.zip_append calls]
  exact List.mem_append_left _ member

/-- A text that comes again, the empty one and one of two bytes are told apart, also after a further
one. -/
theorem internAll_repeated :
    let now := empty.internAll ["b", "", "é", "b"]
    let afterwards := now.2.internAll ["z", ""]
    now.1 = [⟨0⟩, ⟨1⟩, ⟨2⟩, ⟨0⟩] ∧ now.2.arena = "bé" ∧ afterwards.2.arena = "béz" ∧
      Leads afterwards.2 ⟨2⟩ "é" := by
  intro now afterwards
  have fits : totalBytes (["b", "", "é", "b"] ++ ["z", ""]).eraseDups < 2 ^ 32 := by decide
  obtain ⟨before, leads, whole⟩ := internAll_interned ["b", "", "é", "b"] ["z", ""] fits
  have names : now.1 = [⟨0⟩, ⟨1⟩, ⟨2⟩, ⟨0⟩] := before.places
  refine ⟨names, before.arena, whole.arena, leads ("é", ⟨2⟩) ?_⟩
  rw [names]
  decide

end Interner

end RegisterMachine
