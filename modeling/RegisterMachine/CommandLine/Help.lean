/-
This file writes the help pages of the command line.
-/

import RegisterMachine.CommandLine.Arguments

namespace RegisterMachine.CommandLine

/-- A name as it is typed and what it stands for. -/
structure HelpEntry where
  name : String
  meaning : String
  deriving DecidableEq, Repr

/-- Parts of a page without entries are left out. -/
structure HelpPage where
  summary : String
  usage : String
  commands : List HelpEntry
  arguments : List HelpEntry
  options : List HelpEntry
  /-- Paragraphs at the end. -/
  notes : List String
  deriving DecidableEq, Repr

namespace HelpEntry

/-- All meanings begin in the column behind the longest name. -/
def lines (entries : List HelpEntry) : List String :=
  let width := entries.foldl (fun width entry => max width entry.name.length) 0
  entries.map fun entry =>
    "  " ++ entry.name.pushn ' ' (width - entry.name.length) ++ "  " ++ entry.meaning

def verbosity : HelpEntry := ⟨"-v...", "Increase log verbosity (-v debug, -vv trace)"⟩

def help : HelpEntry := ⟨"-h, --help", "Print help"⟩

def source : HelpEntry := ⟨"<SOURCE>", "Assembly source file"⟩

def bytecode : HelpEntry := ⟨"<BYTECODE>", "Bytecode container file"⟩

end HelpEntry

namespace HelpPage

/-- A heading with its entries, or nothing if there are none. -/
def part (heading : String) (entries : List HelpEntry) : List String :=
  if entries = [] then [] else ["\n".intercalate ((heading ++ ":") :: HelpEntry.lines entries)]

/-- Blank lines separate the parts. -/
def text (page : HelpPage) : String :=
  "\n\n".intercalate ([page.summary, "Usage: " ++ page.usage] ++
    part "Commands" page.commands ++ part "Arguments" page.arguments ++
    part "Options" page.options ++ page.notes) ++ "\n"

end HelpPage

/-- What a command does. -/
def CommandName.summary : CommandName → String
  | asm => "Assemble source into a bytecode container"
  | run => "Execute a bytecode container"
  | dump => "Disassemble a bytecode container"
  | ast => "Show the parsed program"

def CommandName.helpPage : CommandName → HelpPage
  | asm => {
      summary := asm.summary
      usage := "bitlang asm [OPTIONS] <SOURCE>"
      commands := []
      arguments := [.source]
      options := [
        ⟨"-o, --output <FILE>", "Output file (defaults to SOURCE with a .bc extension)"⟩,
        .verbosity, .help]
      notes := ["EXAMPLES:\n" ++
        "  bitlang asm hello.s                 # writes hello.bc\n" ++
        "  bitlang asm hello.s -o out.bc"] }
  | run => {
      summary := run.summary
      usage := "bitlang run [OPTIONS] <BYTECODE>"
      commands := []
      arguments := [.bytecode]
      options := [
        ⟨"    --fuel <N>", "Stop after N instructions"⟩,
        .verbosity,
        ⟨"    --trace", "Print each executed instruction to stderr"⟩,
        .help]
      notes := ["EXAMPLES:\n" ++
        "  bitlang run hello.bc\n" ++
        "  bitlang run hello.bc --fuel 10000   # stop runaway loops\n" ++
        "  bitlang run hello.bc --trace        # instruction trace on stderr",
        "On a VM fault the process exits with the fault code."] }
  | dump => {
      summary := dump.summary
      usage := "bitlang dump [OPTIONS] <BYTECODE>"
      commands := []
      arguments := [.bytecode]
      options := [⟨"    --json", "Emit the listing as JSON"⟩, .verbosity, .help]
      notes := [] }
  | ast => {
      summary := ast.summary
      usage := "bitlang ast [OPTIONS] <SOURCE>"
      commands := []
      arguments := [.source]
      options := [.verbosity, .help]
      notes := [] }

def helpSummary : String :=
  "Print this message or the help of the given subcommand(s)"

def HelpTopic.page : HelpTopic → HelpPage
  | program => {
      summary := "Assembler and register VM for bitlang bytecode"
      usage := "bitlang [OPTIONS] <COMMAND>"
      commands := CommandName.all.map (fun name => ⟨name.word, name.summary⟩) ++
        [⟨"help", helpSummary⟩]
      arguments := []
      options := [.verbosity, .help]
      notes := [] }
  | command name => name.helpPage
  | help => {
      summary := helpSummary
      usage := "bitlang help [COMMAND]..."
      commands := []
      arguments := [⟨"[COMMAND]...", "Print help for the subcommand(s)"⟩]
      options := []
      notes := [] }

end RegisterMachine.CommandLine
