/-
This file turns programs into containers and source text into programs.
-/

import RegisterMachine.Container.Basic
import RegisterMachine.Layout.Code
import RegisterMachine.Source.Program.Parser
import RegisterMachine.Source.Token.Lexer

namespace RegisterMachine

open Source

namespace Source.Program

/-- Addresses are settled for the whole program before any instruction is encoded. -/
def emit (interner : Interner) (program : Program) :
    Logged (Except (Abort EmitError) Container) :=
  match Layout.ofProgram interner program with
  | .error reason => ⟨[], .error reason⟩
  | .ok layout =>
      match layout.code interner program with
      | .error reason => ⟨[], .error reason⟩
      | .ok code =>
          ⟨[.emittedContainer (code.length / RegisterMachine.Instruction.byteSize)
              layout.symbols.size layout.rodata.size layout.data.size],
            .ok (Container.ofSections ⟨code, layout.rodata.toList, layout.data.toList⟩
              layout.entryPoint)⟩

end Source.Program

/-- Why a source text has no container. -/
inductive AssemblyError where
  | lex (error : LexError)
  | parse (error : ParseError)
  | emit (error : EmitError)
  deriving DecidableEq, Repr

def AssemblyError.message : AssemblyError → String
  | lex error => error.message
  | parse error => error.message
  | emit error => error.message

namespace Source

/-- The program of a source text and the interner that knows its names. -/
def read (capacity : Nat) (source : String) :
    Logged (Except (Abort AssemblyError) (Program × Interner)) :=
  (lex Interner.empty source.toList).andThen (fun error => .raised (.lex error))
    fun (tokens, interner) =>
      let parsed := parse interner capacity tokens
      ⟨parsed.log, parsed.value.mapError (Abort.map .parse)⟩

def assemble (capacity : Nat) (source : String) :
    Logged (Except (Abort AssemblyError) Container) :=
  (read capacity source).andThen id fun (program, interner) =>
    let emitted := program.emit interner
    ⟨emitted.log, emitted.value.mapError (Abort.map .emit)⟩

end Source

end RegisterMachine
