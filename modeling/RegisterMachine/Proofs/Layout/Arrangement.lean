/-
This file proves that a layout puts each value of its program in one place. The values of a section
follow each other in the order of the lines, and nothing stands between them or behind them.
-/

import RegisterMachine.Proofs.Layout.Contents
import RegisterMachine.Proofs.Layout.Pieces
import RegisterMachine.Proofs.Layout.Values

namespace RegisterMachine

open Source
open scoped List

namespace Source

section Offsets

variable {α β : Type}

/-- An item with a name that no other item has is found behind the items before it. -/
theorem offset?_at (size : α → Nat) {wanted : α → Bool} {key : α → Option Symbol}
    {name : Symbol} {before after : List α} {item : α}
    (distinct : ((before ++ item :: after).filterMap key).Nodup) (keyed : key item = some name)
    (isWanted : wanted item) (wantedKeyed : ∀ other, wanted other → key other = some name) :
    offset? size wanted (before ++ item :: after) = some (before.map size).sum := by
  induction before with
  | nil =>
      rw [List.nil_append, offset?, if_pos isWanted]
      rfl
  | cons first rest inductionHypothesis =>
      have further := inductionHypothesis
        (distinct.sublist ((List.sublist_cons_self first _).filterMap key))
      have unwanted : ¬wanted first := by
        intro found
        rw [List.cons_append, List.filterMap_cons_some (wantedKeyed first found),
          List.nodup_cons] at distinct
        exact distinct.1 (List.mem_filterMap.mpr ⟨item, by simp, keyed⟩)
      rw [List.cons_append, offset?, if_neg unwanted, further, List.map_cons, List.sum_cons]
      rfl

/-- The offset of a line is the offset of what the line gives, if each line gives one thing or has
no size. -/
theorem offset?_flatMap (give : α → List β) {size : α → Nat} (givenSize : β → Nat)
    {wanted : α → Bool} (givenWanted : β → Bool) {items : List α}
    (each : ∀ item ∈ items,
      (give item = [] ∧ size item = 0 ∧ wanted item = false) ∨
        ∃ given, give item = [given] ∧ size item = givenSize given ∧
          wanted item = givenWanted given) :
    offset? size wanted items = offset? givenSize givenWanted (items.flatMap give) := by
  induction items with
  | nil => rfl
  | cons item rest inductionHypothesis =>
      rw [List.forall_mem_cons] at each
      rw [offset?, inductionHypothesis each.2, List.flatMap_cons]
      rcases each.1 with ⟨nothing, empty, unwanted⟩ | ⟨given, alone, sameSize, sameWanted⟩
      · simp [nothing, empty, unwanted]
      · rw [alone, List.singleton_append, offset?, sameSize, sameWanted]

end Offsets

namespace Constant

/-- The name of a named value. -/
def name? : Constant → Option Symbol
  | named name _ => some name
  | literal _ => none

theorem name?_of_isNamed {constant : Constant} {name : Symbol} (isNamed : constant.isNamed name) :
    constant.name? = some name := by
  cases constant with
  | named other value =>
      rw [of_decide_eq_true isNamed]
      rfl
  | literal text => cases isNamed

theorem text?_of_isLiteral {constant : Constant} {text : Symbol}
    (isLiteral : constant.isLiteral text) : constant.text? = some text := by
  cases constant with
  | named name value => cases isLiteral
  | literal other =>
      rw [of_decide_eq_true isLiteral]
      rfl

/-- Placing keeps all named values in order. -/
theorem names_foldl_place (constants placed : List Constant) :
    (constants.foldl place placed).filterMap name? =
      placed.filterMap name? ++ constants.filterMap name? := by
  induction constants generalizing placed with
  | nil => simp
  | cons constant rest inductionHypothesis =>
      rw [List.foldl_cons, inductionHypothesis]
      cases constant with
      | named name value => simp [place, name?]
      | literal text =>
          rw [place, List.filterMap_cons_none (by rfl : name? (.literal text) = none)]
          split
          · rfl
          · simp [name?]

theorem any_isLiteral (text : Symbol) (placed : List Constant) :
    placed.any (isLiteral text) ↔ text ∈ placed.filterMap text? := by
  rw [List.any_eq_true, List.mem_filterMap]
  constructor
  · rintro ⟨constant, member, found⟩
    exact ⟨constant, member, text?_of_isLiteral found⟩
  · rintro ⟨constant, member, found⟩
    cases constant with
    | named name value => cases found
    | literal other => exact ⟨_, member, decide_eq_true (Option.some.inj found).symm⟩

/-- No string operand is placed twice. -/
theorem texts_foldl_place {placed : List Constant} (distinct : (placed.filterMap text?).Nodup)
    (constants : List Constant) : ((constants.foldl place placed).filterMap text?).Nodup := by
  induction constants generalizing placed with
  | nil => exact distinct
  | cons constant rest inductionHypothesis =>
      rw [List.foldl_cons]
      apply inductionHypothesis
      cases constant with
      | named name value =>
          have none : text? (.named name value) = none := rfl
          rw [place, List.filterMap_append, List.filterMap_cons_none none, List.filterMap_nil,
            List.append_nil]
          exact distinct
      | literal text =>
          rw [place]
          split
          · exact distinct
          · rename_i absent
            rw [any_isLiteral] at absent
            rw [List.filterMap_append, List.nodup_append]
            refine ⟨distinct, by simp [text?], ?_⟩
            intro other earlier last here same
            rw [List.filterMap_cons_some (by rfl : text? (.literal text) = some text),
              List.filterMap_nil, List.mem_singleton] at here
            rw [same, here] at earlier
            exact absent earlier

/-- Whether placing a constant adds it. -/
def isNew (placed : List Constant) : Constant → Bool
  | named _ _ => true
  | literal text => !placed.any (isLiteral text)

theorem isNew_append_named (placed : List Constant) (name : Symbol) (value : Operand) :
    isNew (placed ++ [.named name value]) = isNew placed := by
  funext constant
  cases constant with
  | named other value => rfl
  | literal text =>
      rw [isNew, List.any_append]
      simp [isNew, isLiteral]

theorem isNew_append_literal (placed : List Constant) (text : Symbol) :
    isNew (placed ++ [.literal text]) =
      fun constant => isNew placed constant && !(constant == .literal text) := by
  funext constant
  cases constant with
  | named other value => rfl
  | literal other =>
      rw [isNew, isNew, List.any_append, Bool.not_or]
      by_cases same : other = text
      · simp [isLiteral, same]
      · simp [isLiteral, same]

/-- What is placed are the constants in order, each where it occurs first. -/
theorem foldl_place_eq {constants : List Constant} (distinct : (constants.filterMap name?).Nodup)
    (placed : List Constant) :
    constants.foldl place placed = placed ++ (constants.filter (isNew placed)).eraseDups := by
  induction constants generalizing placed with
  | nil => simp
  | cons constant rest inductionHypothesis =>
      have later := inductionHypothesis
        (distinct.sublist ((List.sublist_cons_self constant rest).filterMap name?))
      rw [List.foldl_cons, later]
      cases constant with
      | named name value =>
          have others : (rest.filter (isNew placed)).filter (fun other =>
              !(other == .named name value)) = rest.filter (isNew placed) := by
            rw [List.filter_eq_self]
            intro other member
            rw [List.filterMap_cons_some (by rfl : name? (.named name value) = some name),
              List.nodup_cons] at distinct
            rw [Bool.not_eq_true', beq_eq_false_iff_ne]
            intro same
            rw [same] at member
            exact distinct.1 (List.mem_filterMap.mpr ⟨_, (List.mem_filter.mp member).1, rfl⟩)
          rw [place, isNew_append_named, List.filter_cons_of_pos rfl, List.eraseDups_cons, others,
            List.append_assoc, List.singleton_append]
      | literal text =>
          rw [place]
          by_cases present : placed.any (isLiteral text)
          · rw [if_pos present, List.filter_cons_of_neg (by simp [isNew, present])]
          · rw [if_neg present, isNew_append_literal,
              List.filter_cons_of_pos (by simpa [isNew] using present), List.eraseDups_cons,
              List.append_assoc, List.singleton_append, List.filter_filter]
            simp only [Bool.and_comm]

end Constant

namespace Line

/-- The named values that a line adds to the data. -/
def data : Line → List Constant
  | .directive .data ⟨.symbol name, value⟩ => [.named name value]
  | _ => []

theorem mem_data {line : Line} {constant : Constant} (member : constant ∈ line.data) :
    ∃ name value, constant = .named name value ∧
      line = .directive .data ⟨.symbol name, value⟩ := by
  cases line with
  | label name | instruction content => cases member
  | directive directive operands =>
      obtain ⟨first, second⟩ := operands
      cases directive <;> cases first <;> simp_all [data]

/-- A line of the data gives its one value to a name, if it is right by itself. -/
theorem data_alone (interner : Interner) {line : Line} (directed : line.isWellDirected) :
    (line.data = [] ∧ line.dataBytes interner = [] ∧ ∀ name, line.isDatum name = false) ∨
      ∃ given, line.data = [given] ∧ line.dataBytes interner = given.bytes interner ∧
        ∀ name, line.isDatum name = given.isNamed name := by
  cases line with
  | label other | instruction content => exact .inl ⟨rfl, rfl, fun _ => rfl⟩
  | directive directive operands =>
      obtain ⟨first, second⟩ := operands
      cases directive with
      | start | global | rodata | unknown => exact .inl ⟨rfl, rfl, fun _ => rfl⟩
      | data =>
          cases first with
          | symbol other =>
              refine .inr ⟨.named other second, rfl, rfl, ?_⟩
              simp [isDatum, Constant.isNamed, eq_comm]
          | register | integer | char | string | absent => cases directed

/-- What a line adds to the data has no name but the one that the line binds. -/
theorem data_names (line : Line) : line.data.filterMap Constant.name? <+ line.binds?.toList := by
  cases line with
  | label other | instruction content => exact List.nil_sublist _
  | directive directive operands =>
      obtain ⟨first, second⟩ := operands
      cases directive with
      | start | global | rodata | unknown => exact List.nil_sublist _
      | data =>
          cases first with
          | symbol name => exact List.Sublist.refl _
          | register | integer | char | string | absent => exact List.nil_sublist _

/-- What a line adds to the read-only data has no name but the one that the line binds. -/
theorem constants_names (line : Line) :
    line.constants.filterMap Constant.name? <+ line.binds?.toList := by
  cases line with
  | label other => exact List.nil_sublist _
  | instruction content =>
      have unnamed : (content.operands.toList.filterMap Operand.literal?).filterMap
          Constant.name? = [] := by
        rw [List.filterMap_eq_nil_iff]
        intro constant placed
        obtain ⟨text, literal⟩ := literals_unnamed placed
        rw [literal]
        rfl
      rw [constants, unnamed]
      exact List.nil_sublist _
  | directive directive operands =>
      obtain ⟨first, second⟩ := operands
      cases directive with
      | start | global | data | unknown => exact List.nil_sublist _
      | rodata =>
          cases first with
          | symbol name => exact List.Sublist.refl _
          | register | integer | char | string | absent => exact List.nil_sublist _

end Line

section Places

variable {interner : Interner} {lines : List Line} {name : Symbol} {value : Operand}

/-- Names that lines bind once are the names of one value each. -/
theorem names_distinct {give : Line → List Constant}
    (bound : ∀ line, (give line).filterMap Constant.name? <+ line.binds?.toList)
    (distinct : (lines.filterMap Line.binds?).Nodup) :
    ((lines.flatMap give).filterMap Constant.name?).Nodup := by
  refine List.Nodup.sublist ?_ distinct
  rw [List.filterMap_flatMap, List.filterMap_eq_flatMap_toList]
  clear distinct
  induction lines with
  | nil => exact .slnil
  | cons line rest inductionHypothesis => exact (bound line).append inductionHypothesis

/-- The read-only data holds what the lines mention, each string operand where it occurs first. -/
theorem constants_eq (distinct : (lines.filterMap Line.binds?).Nodup) :
    constants lines = (lines.flatMap Line.constants).eraseDups := by
  have names := names_distinct Line.constants_names distinct
  have everyNew : (lines.flatMap Line.constants).filter (Constant.isNew []) =
      lines.flatMap Line.constants := by
    rw [List.filter_eq_self]
    intro constant _
    cases constant <;> rfl
  rw [constants, Constant.foldl_place_eq names, everyNew, List.nil_append]

/-- A line that binds a name leaves no other line to bind it. -/
theorem offset?_eq_none {size : Line → Nat} {wanted : Line → Bool} {line : Line}
    (distinct : (lines.filterMap Line.binds?).Nodup)
    (wantedBinds : ∀ other, wanted other → other.binds? = some name) (member : line ∈ lines)
    (binds : line.binds? = some name) (unwanted : wanted line = false) :
    offset? size wanted lines = none := by
  cases found : offset? size wanted lines with
  | none => rfl
  | some offset =>
      obtain ⟨before, other, after, split, isWanted, _⟩ := offset?_split found
      have inLines : other ∈ lines := by simp [split]
      rw [binds?_unique distinct inLines member (wantedBinds other isWanted) binds, unwanted]
        at isWanted
      cases isWanted

theorem Line.binds?_of_isLabel (line : Line) (isLabel : line.isLabel name) :
    line.binds? = some name :=
  (line.binds?_eq_some name).mpr (.inl isLabel)

theorem Line.binds?_of_isDatum (line : Line) (isDatum : line.isDatum name) :
    line.binds? = some name :=
  (line.binds?_eq_some name).mpr (.inr (.inl isDatum))

/-- A label stands behind the code of the lines before it. -/
theorem symbolAddress?_atLabel {before after : List Line}
    (distinct : ((before ++ .label name :: after).filterMap Line.binds?).Nodup) :
    symbolAddress? interner (before ++ .label name :: after) name =
      some (Segment.code.base + UInt32.ofNat (codeSize before)) := by
  have place := offset?_at Line.codeSize distinct
    (Line.binds?_of_isLabel (.label name) (decide_eq_true rfl)) (decide_eq_true rfl)
    Line.binds?_of_isLabel
  rw [symbolAddress?, labelAddress?, place]
  rfl

/-- A datum stands behind the data before it. -/
theorem symbolAddress?_atDatum {before after : List Constant}
    (distinct : (lines.filterMap Line.binds?).Nodup)
    (directed : ∀ line ∈ lines, line.isWellDirected)
    (split : lines.flatMap Line.data = before ++ .named name value :: after) :
    symbolAddress? interner lines name =
      some (Segment.data.base +
        UInt32.ofNat (before.flatMap (Constant.bytes interner)).length) := by
  have given : .named name value ∈ lines.flatMap Line.data := by simp [split]
  obtain ⟨line, member, inLine⟩ := List.mem_flatMap.mp given
  obtain ⟨_, _, same, datum⟩ := Line.mem_data inLine
  cases same
  have binds : line.binds? = some name := by rw [datum]; rfl
  have noLabel : labelAddress? lines name = none := by
    rw [labelAddress?, offset?_eq_none distinct Line.binds?_of_isLabel member binds
      (by rw [datum]; rfl)]
    rfl
  have names := names_distinct Line.data_names distinct
  rw [split] at names
  have place : offset? (fun line => (line.dataBytes interner).length) (Line.isDatum name) lines =
      some (before.flatMap (Constant.bytes interner)).length := by
    rw [offset?_flatMap Line.data (fun constant => (constant.bytes interner).length)
      (Constant.isNamed name), split,
      offset?_at _ names (by rfl) (decide_eq_true rfl) fun _ => Constant.name?_of_isNamed,
      List.length_flatMap]
    intro line member
    rcases Line.data_alone interner (directed line member) with
      ⟨nothing, empty, unwanted⟩ | ⟨given, alone, bytes, same⟩
    · exact .inl ⟨nothing, by rw [empty]; rfl, unwanted name⟩
    · exact .inr ⟨given, alone, by rw [bytes], same name⟩
  rw [symbolAddress?, noLabel, dataAddress?, place]
  rfl

/-- A named value of the read-only data stands behind the read-only data before it. -/
theorem symbolAddress?_atConstant {before after : List Constant}
    (distinct : (lines.filterMap Line.binds?).Nodup)
    (split : constants lines = before ++ .named name value :: after) :
    symbolAddress? interner lines name =
      some (Segment.rodata.base +
        UInt32.ofNat (before.flatMap (Constant.bytes interner)).length) := by
  have placed : .named name value ∈ constants lines := by simp [split]
  obtain ⟨line, member, inLine⟩ := mem_constants placed
  have constant := Line.mem_constants_named inLine
  have binds : line.binds? = some name := by rw [constant]; rfl
  have noLabel : labelAddress? lines name = none := by
    rw [labelAddress?, offset?_eq_none distinct Line.binds?_of_isLabel member binds
      (by rw [constant]; rfl)]
    rfl
  have noDatum : dataAddress? interner lines name = none := by
    rw [dataAddress?, offset?_eq_none distinct Line.binds?_of_isDatum member binds
      (by rw [constant]; rfl)]
    rfl
  have names : ((constants lines).filterMap Constant.name?).Nodup := by
    rw [constants, Constant.names_foldl_place]
    exact names_distinct Line.constants_names distinct
  rw [split] at names
  rw [symbolAddress?, noLabel, noDatum, constantAddress?, Constant.address?, split,
    offset?_at _ names (by rfl) (decide_eq_true rfl) fun _ => Constant.name?_of_isNamed,
    List.length_flatMap]
  rfl

/-- The copy of a string operand stands behind the read-only data before it. -/
theorem literalAddress?_at {text : Symbol} {before after : List Constant}
    (split : constants lines = before ++ .literal text :: after) :
    literalAddress? interner lines text =
      some (Segment.rodata.base +
        UInt32.ofNat (before.flatMap (Constant.bytes interner)).length) := by
  have none : (([] : List Constant).filterMap Constant.text?).Nodup := List.nodup_nil
  have texts : ((constants lines).filterMap Constant.text?).Nodup :=
    Constant.texts_foldl_place none _
  rw [split] at texts
  rw [literalAddress?, Constant.address?, split,
    offset?_at _ texts (by rfl) (decide_eq_true rfl) fun _ => Constant.text?_of_isLiteral,
    List.length_flatMap]
  rfl

end Places

end Source

namespace Layout

/-- The address that a layout gives to a value. -/
def addressOf? (layout : Layout) : Constant → Option UInt32
  | .named name _ => layout.symbols.lookup name
  | .literal text => layout.strings.lookup text

/-- A value has its bytes at its address. -/
structure Places (interner : Interner) (layout : Layout) (constant : Constant) (piece : Piece) :
    Prop where
  address : layout.addressOf? constant = some piece.address
  bytes : Encodes interner constant.value piece.bytes

/-- Each name is bound in one place, labels to where the next instruction goes, and the values of
both data sections have one piece of their section each, which is all of it. -/
structure Arranges (interner : Interner) (program : Program) (layout : Layout) : Prop where
  codeLength : layout.codeLength = 8 * program.instructions.length
  directed : ∀ line ∈ program.contents, line.isWellDirected
  distinct : (program.contents.filterMap Line.binds?).Nodup
  labels : ∀ before name after, program.contents = before ++ .label name :: after →
    ∃ address, layout.symbols.lookup name = some address ∧
      address.toNat = 8 * (instructionsOf before).length
  data : ∃ pieces, Segment.data.Covers layout.data.toList pieces ∧
    List.Forall₂ (layout.Places interner) (program.contents.flatMap Line.data) pieces
  rodata : ∃ pieces, Segment.rodata.Covers layout.rodata.toList pieces ∧
    List.Forall₂ (layout.Places interner) (program.contents.flatMap Line.constants).eraseDups
      pieces

variable {interner : Interner} {program : Program} {layout : Layout}

/-- Values that stand behind each other in a segment cover it. -/
theorem covers {segment : Segment} {values : List Constant}
    (fits : (values.flatMap (Constant.bytes interner)).length ≤ segment.size.toNat)
    (encodes : ∀ constant ∈ values, Encodes interner constant.value (constant.bytes interner))
    (behind : ∀ before constant after, values = before ++ constant :: after →
      layout.addressOf? constant = some (segment.base +
        UInt32.ofNat (before.flatMap (Constant.bytes interner)).length)) :
    ∃ pieces, segment.Covers (values.flatMap (Constant.bytes interner)) pieces ∧
      List.Forall₂ (layout.Places interner) values pieces := by
  have places : List.Forall₂ (layout.Places interner) values
      (piecesFrom (Constant.bytes interner) segment 0 values) := by
    apply piecesFrom_forall₂
    intro before constant after split
    rw [Nat.zero_add]
    exact ⟨behind before constant after split, encodes constant (by simp [split])⟩
  have bytes := piecesFrom_bytes (Constant.bytes interner) segment 0 values
  have whole : (piecesFrom (Constant.bytes interner) segment 0 values).flatMap Piece.bytes =
      values.flatMap (Constant.bytes interner) := by
    rw [List.flatMap_def, bytes, ← List.flatMap_def]
  have words : ∀ piece ∈ piecesFrom (Constant.bytes interner) segment 0 values,
      0 < piece.bytes.length ∧ 4 ∣ piece.bytes.length := by
    intro piece member
    have inPieces := List.mem_map_of_mem (f := Piece.bytes) member
    rw [bytes] at inPieces
    obtain ⟨constant, inValues, same⟩ := List.mem_map.mp inPieces
    rw [← same]
    exact (encodes constant inValues).whole
  have consecutive : Consecutive Piece.start Piece.size segment.base.toNat
      (piecesFrom (Constant.bytes interner) segment 0 values) :=
    piecesFrom_consecutive (by rw [Nat.zero_add]; exact fits)
  rw [← whole]
  exact ⟨_, .of_consecutive consecutive words (by rw [whole]; exact fits), places⟩

theorem ofProgram_labels (laid : ofProgram interner program = .ok layout)
    (distinct : (program.contents.filterMap Line.binds?).Nodup) {before after : List Line}
    {name : Symbol} (split : program.contents = before ++ .label name :: after) :
    ∃ address, layout.symbols.lookup name = some address ∧
      address.toNat = 8 * (instructionsOf before).length := by
  obtain ⟨agrees, codeFits, _⟩ := ofProgram_ok laid
  have within : codeSize before ≤ Segment.code.size.toNat := by
    rw [agrees.codeLength, split, codeSize, List.map_append, List.sum_append] at codeFits
    exact Nat.le_trans (Nat.le_add_right _ _) codeFits
  rw [split] at distinct
  refine ⟨Segment.code.base + UInt32.ofNat (codeSize before), ?_, ?_⟩
  · rw [agrees.symbols, split]
    exact symbolAddress?_atLabel distinct
  · rw [base_add_offset within (by decide), codeSize_instructionsOf]
    exact Nat.zero_add _

/-- A layout puts each value of its program in one place, in order and without gaps. -/
theorem ofProgram_arranges (laid : ofProgram interner program = .ok layout) :
    layout.Arranges interner program := by
  obtain ⟨agrees, _⟩ := ofProgram_ok laid
  obtain ⟨data, dataFits⟩ := data_eq laid
  obtain ⟨rodata, rodataFits⟩ := rodata_eq laid
  obtain ⟨directed, _, names⟩ := program.clean_iff.mp (ofProgram_clean laid)
  have distinct : (program.contents.filterMap Line.binds?).Nodup := by
    rw [Program.contents, List.filterMap_map]
    exact names
  refine ⟨?_, directed, distinct, fun _ _ _ => ofProgram_labels laid distinct, ?_, ?_⟩
  · rw [agrees.codeLength, program.codeSize_contents]
    rfl
  · have given : program.contents.flatMap (Line.dataBytes interner) =
        (program.contents.flatMap Line.data).flatMap (Constant.bytes interner) := by
      rw [List.flatMap_assoc]
      apply List.flatMap_congr
      intro line member
      rcases Line.data_alone interner (directed line member) with
        ⟨nothing, empty, _⟩ | ⟨given, alone, bytes, _⟩
      · rw [nothing, empty, List.flatMap_nil]
      · rw [alone, bytes, List.flatMap_singleton]
    rw [data, given]
    apply covers (by rw [← given]; exact dataFits)
    · intro constant member
      obtain ⟨line, inContents, inLine⟩ := List.mem_flatMap.mp member
      obtain ⟨name, value, rfl, rfl⟩ := Line.mem_data inLine
      exact value_encodes laid (.inl inContents)
    · intro before constant after split
      have member : constant ∈ program.contents.flatMap Line.data := by simp [split]
      obtain ⟨line, _, inLine⟩ := List.mem_flatMap.mp member
      obtain ⟨name, value, rfl, _⟩ := Line.mem_data inLine
      rw [addressOf?, agrees.symbols]
      exact symbolAddress?_atDatum distinct directed split
  · rw [rodata, ← constants_eq distinct]
    apply covers rodataFits
    · intro constant member
      obtain ⟨line, inContents, inLine⟩ := mem_constants member
      cases constant with
      | named name value =>
          rw [Line.mem_constants_named inLine] at inContents
          exact value_encodes laid (.inr inContents)
      | literal text =>
          have mentioned : text ∈ line.literals := by
            rw [← line.constants_texts]
            exact List.mem_filterMap.mpr ⟨_, inLine, rfl⟩
          exact literal_encodes laid (List.mem_flatMap.mpr ⟨line, inContents, mentioned⟩)
    · intro before constant after split
      cases constant with
      | named name value =>
          rw [addressOf?, agrees.symbols]
          exact symbolAddress?_atConstant distinct split
      | literal text =>
          rw [addressOf?, agrees.constants.strings]
          exact literalAddress?_at split

/-- Two instructions share the copy of their string, and a named value has its own. -/
theorem ofProgram_arranges_shared :
    let source := "print_str \"hi\"\n.DATA x 'c'\n.RODATA y \"hi\"\nl: print_str \"hi\"\n.DATA z 7"
    ∃ program interner layout, (read 10 source).value = .ok (program, interner) ∧
      ofProgram interner program = .ok layout ∧ layout.Arranges interner program ∧
      layout.rodata.toList = [104, 105, 0, 0, 104, 105, 0, 0] ∧
      layout.data.toList = [99, 0, 0, 0, 7, 0, 0, 0] := by
  intro source
  have accepted : (read 10 source).value.toOption.any fun parsed =>
      (ofProgram parsed.2 parsed.1).toOption.any fun layout =>
        decide (layout.rodata.toList = [104, 105, 0, 0, 104, 105, 0, 0] ∧
          layout.data.toList = [99, 0, 0, 0, 7, 0, 0, 0]) := by
    decide +kernel
  obtain ⟨⟨program, interner⟩, parsed, accepted⟩ := exists_ok accepted
  obtain ⟨layout, laid, contents⟩ := exists_ok accepted
  exact ⟨program, interner, layout, parsed, laid, ofProgram_arranges laid,
    of_decide_eq_true contents⟩

end Layout

end RegisterMachine
