/-
This file proves that names do not matter. A program whose names are changed has the same container,
as long as different names stay different, and it is refused for the same reason otherwise. Names
and strings share an interner, but a name may be changed without the string of the same text.
-/

import RegisterMachine.Proofs.Assembler.Emission
import RegisterMachine.Proofs.Layout.Renaming
import RegisterMachine.Proofs.Source.Interning

namespace RegisterMachine

open Source
open EmitError (Renames)

namespace Source

/-- The second symbol is spelled as the first one is renamed. -/
def SpelledAnew (rename : String → String) (first second : Interner) (name other : Symbol) : Prop :=
  ∃ text, first.Spells name text ∧ second.Spells other (rename text)

/-- The second symbol is spelled as the first one is renamed, and the first one is in use. -/
def Partners (rename : String → String) (texts : Set String) (first second : Interner)
    (name other : Symbol) : Prop :=
  ∃ text ∈ texts, first.Spells name text ∧ second.Spells other (rename text)

/-- The names that a line binds or refers to. Strings are no names. -/
def Line.usedNames : Line → List Symbol
  | .label name => [name]
  | .instruction content => content.references
  | .directive _ operands => operands.toList.filterMap Operand.name?

namespace Program

/-- How the names of a program are spelled. -/
def usedTexts (interner : Interner) (program : Program) : Set String :=
  {text | ∃ line ∈ program.contents, ∃ name ∈ line.usedNames, interner.Spells name text}

/-- The same program with other names, and with the same strings. -/
def IsRenamed (rename : String → String) (first : Interner) (program : Program)
    (second : Interner) (other : Program) : Prop :=
  List.Forall₂ (NumberedLine.Renamed (SpelledAnew rename first second) (SameText first second))
    program.toList other.toList

end Program

section Partners

variable {names narrower strings : Symbol → Symbol → Prop}

theorem Operand.Renamed.imp {operand other : Operand}
    (same : Operand.Renamed names strings operand other)
    (used : ∀ name, operand.name? = some name → ∀ partner, names name partner →
      narrower name partner) : Operand.Renamed narrower strings operand other := by
  cases same with
  | symbol pair => exact .symbol (used _ rfl _ pair)
  | string pair => exact .string pair
  | plain operand unnamed => exact .plain operand unnamed

theorem Operands.Renamed.imp {operands others : Operands}
    (same : Operands.Renamed names strings operands others)
    (used : ∀ name ∈ operands.toList.filterMap Operand.name?, ∀ partner, names name partner →
      narrower name partner) : Operands.Renamed narrower strings operands others := by
  refine ⟨same.first.imp fun name named => used name ?_, same.second.imp fun name named =>
    used name ?_⟩
  · exact List.mem_filterMap.mpr ⟨_, List.mem_cons_self .., named⟩
  · exact List.mem_filterMap.mpr ⟨_, List.mem_cons_of_mem _ (List.mem_cons_self ..), named⟩

/-- Only the names of a line count for what it is renamed to. -/
theorem Line.Renamed.imp {line other : Line} (same : Line.Renamed names strings line other)
    (used : ∀ name ∈ line.usedNames, ∀ partner, names name partner → narrower name partner) :
    Line.Renamed narrower strings line other := by
  cases same with
  | label pair => exact .label (used _ (List.mem_singleton_self _) _ pair)
  | instruction same => exact .instruction (same.imp used)
  | directive same => exact .directive (same.imp used)

/-- Names that stay different in interners without double texts have one partner each. -/
theorem Pairing.of_built {rename : String → String} {first second : Interner}
    (built : first.Built) (builtOther : second.Built) {texts : Set String}
    (injective : Set.InjOn rename texts) :
    Pairing rename first second (Partners rename texts first second) (SameText first second) where
  nameTexts := by
    rintro name other ⟨text, _, spelled⟩
    exact ⟨text, spelled⟩
  stringTexts _ _ same := same
  uniqueNames := by
    constructor
    · rintro name other again ⟨text, used, spelled, spelledOther⟩
        ⟨textAgain, usedAgain, spelledAgain, spelledBoth⟩
      have same := injective used usedAgain (spelledOther.unique spelledBoth)
      rw [← same] at spelledAgain
      exact built.spells_injective spelled spelledAgain
    · rintro name other again ⟨text, _, spelled, spelledOther⟩
        ⟨textAgain, _, spelledBoth, spelledAgain⟩
      rw [← spelled.unique spelledBoth] at spelledAgain
      exact builtOther.spells_injective spelledOther spelledAgain
  uniqueStrings := by
    constructor
    · rintro name other again ⟨text, spelled, spelledOther⟩ ⟨textAgain, spelledAgain, spelledBoth⟩
      rw [← spelledOther.unique spelledBoth] at spelledAgain
      exact built.spells_injective spelled spelledAgain
    · rintro name other again ⟨text, spelled, spelledOther⟩ ⟨textAgain, spelledBoth, spelledAgain⟩
      rw [← spelled.unique spelledBoth] at spelledAgain
      exact builtOther.spells_injective spelledOther spelledAgain

end Partners

namespace Program

variable {rename : String → String} {first second : Interner}
  {names strings : Symbol → Symbol → Prop} {program other : Program}

/-- Instructions with the same opcode on the same line, and with operands that are partners. -/
inductive InstructionRenamed (names strings : Symbol → Symbol → Prop) :
    Nat × Instruction → Nat × Instruction → Prop
  | intro (line : Nat) (opcode : Opcode) {operands others : Operands}
      (same : Operands.Renamed names strings operands others) :
      InstructionRenamed names strings (line, ⟨opcode, operands⟩) (line, ⟨opcode, others⟩)

theorem instructions_renamed
    (same : List.Forall₂ (NumberedLine.Renamed names strings) program.toList other.toList) :
    List.Forall₂ (InstructionRenamed names strings) program.instructions other.instructions := by
  refine List.rel_filterMap ?_ same
  rintro ⟨number, content⟩ ⟨numberOther, contentOther⟩ ⟨rfl, pair⟩
  dsimp only at pair
  cases pair with
  | label | directive => exact .none
  | instruction same => exact .some (.intro _ _ same)

theorem code_renamed (pairing : Pairing rename first second names strings)
    (same : List.Forall₂ (NumberedLine.Renamed names strings) program.toList other.toList)
    {layout moved : Layout} (laid : Layout.ofProgram first program = .ok layout)
    (places : layout.Renamed names strings moved) :
    Corresponds Eq (Renames rename) (layout.code first program) (moved.code second other) := by
  have agrees := (Layout.ofProgram_ok laid).1
  have placed : ∀ item ∈ program.instructions, ∀ text ∈ (Line.instruction item.2).literals,
      (layout.strings.lookup text).isSome := by
    rintro ⟨line, source⟩ member text literal
    obtain ⟨numbered, inProgram, content, _⟩ := mem_instructions.mp member
    rw [agrees.constants.strings, ← literalAddress?, literalAddress?_isSome]
    exact List.mem_flatMap.mpr ⟨_, List.mem_map.mpr ⟨numbered, inProgram, content⟩, literal⟩
  have pairs := (List.forall₂_and_left _ _).mpr ⟨placed, instructions_renamed same⟩
  have slots : Corresponds (List.Forall₂ Eq) (Renames rename)
      (program.instructions.mapM fun item => layout.encodeInstruction first item.1 item.2)
      (other.instructions.mapM fun item => moved.encodeInstruction second item.1 item.2) := by
    refine .mapM pairs ?_
    rintro _ _ ⟨copied, ⟨line, opcode, same⟩⟩
    exact Layout.encodeInstruction_renamed pairing places same copied line
  refine slots.bind ?_
  intro slots slotsOther equal
  rw [List.forall₂_eq_eq_eq] at equal
  exact .ok (congrArg List.flatten equal)

/-- Programs that differ only in their symbols have the same container or none. -/
theorem emit_corresponds (pairing : Pairing rename first second names strings)
    (same : List.Forall₂ (NumberedLine.Renamed names strings) program.toList other.toList) :
    Corresponds Eq (Renames rename) (program.emit first).value (other.emit second).value := by
  have layouts := Layout.ofProgram_renamed pairing same
  rw [emit_value, emit_value]
  cases laid : Layout.ofProgram first program with
  | error reason =>
      rw [laid] at layouts
      generalize Layout.ofProgram second other = result at layouts
      cases layouts with
      | error renames => exact .error renames
  | ok layout =>
      rw [laid] at layouts
      generalize Layout.ofProgram second other = result at layouts
      cases layouts with
      | ok places =>
          refine (code_renamed pairing same laid places).bind fun code codeOther equal => ?_
          rw [equal, places.placement.rodata, places.placement.data, places.entryPoint]
          exact .ok rfl

/-- A renamed program has the same container, and if there is none it is refused for the same reason
on the same line, with the new name in the place of the old one. -/
theorem emit_renamed {capacity : Nat} {source : String} {interner renamedNames : Interner}
    (parsed : (read capacity source).value = .ok (program, interner))
    (built : renamedNames.Built) (injective : Set.InjOn rename (program.usedTexts interner))
    (renamed : program.IsRenamed rename interner renamedNames other) :
    (other.emit renamedNames).value =
      (program.emit interner).value.mapError (Abort.map (EmitError.renamed rename)) := by
  have pairing := Pairing.of_built (read_built parsed) built injective
  have each := (List.forall₂_and_left _ _).mpr ⟨fun line member => member, renamed⟩
  have same : List.Forall₂ (NumberedLine.Renamed
      (Partners rename (program.usedTexts interner) interner renamedNames)
      (SameText interner renamedNames)) program.toList other.toList := by
    refine each.imp ?_
    rintro line lineOther ⟨member, number, content⟩
    refine ⟨number, content.imp ?_⟩
    rintro name mentioned partner ⟨text, spelled, spelledOther⟩
    have used : text ∈ program.usedTexts interner :=
      ⟨line.content, List.mem_map_of_mem member, name, mentioned, spelled⟩
    exact ⟨text, used, spelled, spelledOther⟩
  have corresponds := emit_corresponds pairing same
  generalize (program.emit interner).value = found, (other.emit renamedNames).value = foundOther
    at corresponds
  cases corresponds with
  | ok equal => exact congrArg Except.ok equal.symm
  | error renames => exact congrArg Except.error renames

/-- A label that shares its symbol with a string is renamed, and the string is not. -/
theorem emit_renamed_shared :
    ∃ program interner other names container,
      (read 2 "msg: print_str \"msg\"").value = .ok (program, interner) ∧
        (read 2 "new_msg: print_str \"msg\"").value = .ok (other, names) ∧
        program.IsRenamed ("new_" ++ ·) interner names other ∧
        (program.emit interner).value = .ok container ∧
        (other.emit names).value = .ok container := by
  have accepted : (read 2 "msg: print_str \"msg\"").value.toOption.any fun parsed =>
      decide (parsed.1.toList = [⟨1, .label ⟨2⟩⟩,
        ⟨1, .instruction ⟨.printStr, ⟨.string ⟨2⟩, .absent⟩⟩⟩] ∧
          parsed.2.tryResolve ⟨2⟩ = some "msg") &&
        (parsed.1.emit parsed.2).value.toOption.any fun _ => true := by
    decide +kernel
  have acceptedOther : (read 2 "new_msg: print_str \"msg\"").value.toOption.any fun parsed =>
      decide (parsed.1.toList = [⟨1, .label ⟨3⟩⟩,
        ⟨1, .instruction ⟨.printStr, ⟨.string ⟨2⟩, .absent⟩⟩⟩] ∧
          parsed.2.tryResolve ⟨3⟩ = some "new_msg" ∧ parsed.2.tryResolve ⟨2⟩ = some "msg") := by
    decide +kernel
  obtain ⟨⟨program, interner⟩, parsed, accepted⟩ := exists_ok accepted
  obtain ⟨shape, accepted⟩ := Bool.and_eq_true_iff.mp accepted
  obtain ⟨lines, msg⟩ := of_decide_eq_true shape
  obtain ⟨container, emitted, _⟩ := exists_ok accepted
  obtain ⟨⟨other, names⟩, parsedOther, shapeOther⟩ := exists_ok acceptedOther
  obtain ⟨linesOther, newMsg, msgOther⟩ := of_decide_eq_true shapeOther
  dsimp only at lines msg linesOther newMsg msgOther emitted
  have renamed : program.IsRenamed ("new_" ++ ·) interner names other := by
    rw [IsRenamed, lines, linesOther]
    have text : Operands.Renamed (SpelledAnew ("new_" ++ ·) interner names)
        (SameText interner names) ⟨.string ⟨2⟩, .absent⟩ ⟨.string ⟨2⟩, .absent⟩ :=
      ⟨.string ⟨"msg", msg, msgOther⟩, .plain .absent rfl⟩
    exact .cons ⟨rfl, .label ⟨"msg", msg, newMsg⟩⟩ (.cons ⟨rfl, .instruction text⟩ .nil)
  have injective : Function.Injective ("new_" ++ · : String → String) :=
    fun _ _ same => (String.append_right_inj "new_").mp same
  have same := emit_renamed parsed (read_built parsedOther) injective.injOn renamed
  rw [emitted] at same
  exact ⟨program, interner, other, names, container, parsed, parsedOther, renamed, emitted, same⟩

end Program

end Source

end RegisterMachine
