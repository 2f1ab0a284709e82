/-
This file proves that the formatting of a source does not matter to its container. The lines of the
source are the same up to the numbers of their symbols, and containers have no symbols.
-/

import RegisterMachine.Proofs.Assembler.Loadable
import RegisterMachine.Proofs.Assembler.Renaming
import RegisterMachine.Proofs.Source.Formatting

namespace RegisterMachine.Source

section Alike

variable {first second : Interner}

/-- What has the same text has its own name. -/
theorem SameText.partners {name other : Symbol} (same : SameText first second name other) :
    Partners id Set.univ first second name other := by
  obtain ⟨text, spelled, spelledOther⟩ := same
  exact ⟨text, trivial, spelled, spelledOther⟩

theorem Operand.Alike.renamed {operand other : Operand}
    (alike : Operand.Alike first second operand other) :
    Operand.Renamed (Partners id Set.univ first second) (SameText first second) operand other := by
  cases alike with
  | symbol same => exact .symbol same.partners
  | string same => exact .string same
  | plain operand unnamed => exact .plain operand unnamed

theorem Line.Alike.renamed {line other : Line} (alike : Line.Alike first second line other) :
    Line.Renamed (Partners id Set.univ first second) (SameText first second) line other := by
  cases alike with
  | label same => exact .label same.partners
  | instruction same => exact .instruction ⟨same.front.renamed, same.back.renamed⟩
  | directive same => exact .directive ⟨same.front.renamed, same.back.renamed⟩

/-- Programs with the same lines have the same container. -/
theorem Program.emit_alike {program other : Program} {container : Container}
    (built : first.Built) (builtOther : second.Built)
    (alike : List.Forall₂ (NumberedLine.Alike first second 0) program.toList other.toList)
    (emitted : (program.emit first).value = .ok container) :
    (other.emit second).value = .ok container := by
  have pairing := Pairing.of_built built builtOther (Set.injOn_id Set.univ)
  have same := alike.imp fun _ _ (here : NumberedLine.Alike first second 0 _ _) =>
    (⟨here.number, here.content.renamed⟩ : NumberedLine.Renamed _ _ _ _)
  have corresponds := emit_corresponds pairing same
  rw [emitted] at corresponds
  generalize (other.emit second).value = found at corresponds
  cases corresponds with
  | ok equal => rw [equal]

end Alike

variable {capacity : Nat} {source other : String} {container : Container}

/-- A source has the same container as before one edit. -/
theorem Reformats.keepsContainer (reformats : Reformats source other)
    (assembled : (assemble capacity source).value = .ok container) :
    (assemble capacity other).value = .ok container := by
  obtain ⟨program, interner, parsed, emitted⟩ := assemble_ok assembled
  obtain ⟨programOther, names, parsedOther, alike⟩ := reformats.read_ok parsed
  have emittedOther := Program.emit_alike (read_built parsed) (read_built parsedOther) alike emitted
  unfold assemble Logged.andThen
  rw [parsedOther]
  dsimp only
  rw [emittedOther]
  rfl

/-- The formatting of a source does not matter: whichever comments are deleted, blanks are replaced
or inserted, and registers and mnemonics are written in another case, a source that has a container
keeps it. -/
theorem assemble_reformatted (assembled : (assemble capacity source).value = .ok container)
    (reformatted : Relation.ReflTransGen Reformats source other) :
    (assemble capacity other).value = .ok container := by
  induction reformatted with
  | refl => exact assembled
  | tail _ edited inductionHypothesis => exact edited.keepsContainer inductionHypothesis

/-- An instruction keeps its container when its mnemonic and its register are written in capitals,
its comment is deleted, and its blanks are others. -/
theorem assemble_reformatted_push :
    ∃ container, (assemble 1 "push r0;save").value = .ok container ∧
      (assemble 1 "PUSH\tR0 ").value = .ok container := by
  have accepted : (assemble 1 "push r0;save").value.toOption.any fun _ => true := by
    decide +kernel
  have lexed : (lex Interner.empty "push r0;save".toList).value.toOption.any fun found =>
      decide (found.1 = [.identifier ⟨0⟩, .register .r0] ++ [.endOfFile] ∧
        found.2.tryResolve ⟨0⟩ = some "push") := by
    decide +kernel
  obtain ⟨container, assembled, _⟩ := exists_ok accepted
  obtain ⟨⟨tokens, names⟩, lexed, found⟩ := exists_ok lexed
  obtain ⟨rfl, spelled⟩ := of_decide_eq_true found
  have split : Split names
      [(.instruction ⟨.push, ⟨.register .r0, .absent⟩⟩, [.identifier ⟨0⟩, .register .r0])]
      [.identifier ⟨0⟩, .register .r0] :=
    .more (.instruction [] spelled (by decide) (.more .absent rfl rfl .done) rfl) .done
  have follows : MnemonicFollows "push r0;save" [] := by
    refine ⟨_, names, [], _, _, [], _, ⟨lexed, split, ?_, by decide⟩, rfl, by decide, rfl⟩
    exact fun token member => (lex_known lexed).2 token (List.mem_append_left _ member)
  have reads : Reading.of? ['p', 'u', 's', 'h'] = some (.identifier "push") := by decide +kernel
  have readsRegister : Reading.of? ['r', '0'] = some (.register .r0) := by decide +kernel
  have mnemonic : Reformats "push r0;save" "PUSH r0;save" :=
    ⟨[], [⟨.word, ['p', 'u', 's', 'h']⟩], ['P', 'U', 'S', 'H'],
      [⟨.blank, [' ']⟩, ⟨.word, ['r', '0']⟩, ⟨.comment, [';', 's', 'a', 'v', 'e']⟩],
      by decide +kernel, .recaseMnemonic follows reads (by decide), by decide⟩
  have register : Reformats "PUSH r0;save" "PUSH R0;save" :=
    ⟨[⟨.word, ['P', 'U', 'S', 'H']⟩, ⟨.blank, [' ']⟩], [⟨.word, ['r', '0']⟩], ['R', '0'],
      [⟨.comment, [';', 's', 'a', 'v', 'e']⟩],
      by decide +kernel, .recaseRegister readsRegister (by decide), by decide⟩
  have comment : Reformats "PUSH R0;save" "PUSH R0" :=
    ⟨[⟨.word, ['P', 'U', 'S', 'H']⟩, ⟨.blank, [' ']⟩, ⟨.word, ['R', '0']⟩],
      [⟨.comment, [';', 's', 'a', 'v', 'e']⟩], [], [],
      by decide +kernel, .deleteComment rfl, by decide⟩
  have blanks : Reformats "PUSH R0" "PUSH\tR0" :=
    ⟨[⟨.word, ['P', 'U', 'S', 'H']⟩], [⟨.blank, [' ']⟩], ['\t'], [⟨.word, ['R', '0']⟩],
      by decide +kernel, .replaceBlanks rfl (by decide) (List.forall_mem_singleton.mpr rfl),
      by decide⟩
  have atEnd : Reformats "PUSH\tR0" "PUSH\tR0 " :=
    ⟨[⟨.word, ['P', 'U', 'S', 'H']⟩, ⟨.blank, ['\t']⟩, ⟨.word, ['R', '0']⟩], [], [' '], [],
      by decide +kernel, .insertBlanks (List.forall_mem_singleton.mpr rfl), by decide⟩
  have together : Relation.ReflTransGen Reformats "push r0;save" "PUSH\tR0 " :=
    .tail (.tail (.tail (.tail (.single mnemonic) register) comment) blanks) atEnd
  exact ⟨container, assembled, assemble_reformatted assembled together⟩

end RegisterMachine.Source
