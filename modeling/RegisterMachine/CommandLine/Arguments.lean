/-
This file reads the words of a command line as a request.
-/

import RegisterMachine.Text.Numeral

namespace RegisterMachine.CommandLine

/-- What the user asks for. -/
inductive Request where
  | assemble (source : String) (output : Option String)
  | run (bytecode : String) (fuel : Option UInt32) (trace : Bool)
  | dump (bytecode : String) (json : Bool)
  | showProgram (source : String)
  deriving DecidableEq, Repr

/-- The first plain word names the command. -/
inductive CommandName where
  | asm
  | run
  | dump
  | ast
  deriving DecidableEq, Repr

namespace CommandName

def all : List CommandName := [asm, run, dump, ast]

def word : CommandName → String
  | asm => "asm"
  | run => "run"
  | dump => "dump"
  | ast => "ast"

def ofWord? (word : String) : Option CommandName :=
  all.find? fun name => name.word == word

end CommandName

/-- What help is about. -/
inductive HelpTopic where
  | program
  | command (name : CommandName)
  | help
  deriving DecidableEq, Repr

/-- Why the words are no request. -/
inductive Usage where
  | helpWanted (topic : HelpTopic)
  | rejected
  deriving DecidableEq, Repr

/-- Options that take a value. -/
inductive ValueOption where
  | output
  | fuel
  deriving DecidableEq, Repr

/-- Options that are given or not. -/
inductive Flag where
  | trace
  | json
  deriving DecidableEq, Repr

def CommandName.valueOption? : CommandName → String → Option ValueOption
  | asm, "output" => some .output
  | run, "fuel" => some .fuel
  | _, _ => none

def CommandName.flag? : CommandName → String → Option Flag
  | run, "trace" => some .trace
  | dump, "json" => some .json
  | _, _ => none

/-- What was given after the name of the command so far. -/
structure Given where
  path : Option String
  output : Option String
  fuel : Option UInt32
  trace : Bool
  json : Bool
  /-- An option whose value is the next word. -/
  awaiting : Option ValueOption
  /-- Whether all words that follow are plain. -/
  plainOnly : Bool
  deriving DecidableEq, Repr

namespace Given

def nothing : Given := ⟨none, none, none, false, false, none, false⟩

end Given

/-- A decimal number that is a word; a sign may precede it. -/
def wordOfDigits? (text : String) : Option UInt32 :=
  let (negative, digits) :=
    match text.toList with
    | '-' :: digits => (true, digits)
    | '+' :: digits => (false, digits)
    | digits => (false, digits)
  let value :=
    Text.boundedValue 0x100000000 10 (digits.map fun digit => digit.toNat - '0'.toNat)
  if digits = [] ∨ !digits.all Char.isDigit ∨ 0x100000000 ≤ value ∨ (negative ∧ value ≠ 0) then none
  else some (UInt32.ofNat value)

/-- A word that begins with a hyphen is an option, but a single hyphen is not. -/
def isPlain (word : String) : Bool :=
  match word.toList with
  | '-' :: _ :: _ => false
  | _ => true

namespace Given

/-- One path belongs to each command, and it is not empty. -/
def addPath (given : Given) (word : String) : Except Usage Given :=
  if given.path.isSome || word == "" then .error .rejected
  else .ok { given with path := some word }

/-- An option is given once at most. -/
def addValue (given : Given) (option : ValueOption) (value : String) : Except Usage Given :=
  match option with
  | .output =>
      if given.output.isSome || value == "" then .error .rejected
      else .ok { given with output := some value, awaiting := none }
  | .fuel =>
      match given.fuel, wordOfDigits? value with
      | none, some fuel => .ok { given with fuel := some fuel, awaiting := none }
      | _, _ => .error .rejected

def addFlag (given : Given) : Flag → Except Usage Given
  | .trace => if given.trace then .error .rejected else .ok { given with trace := true }
  | .json => if given.json then .error .rejected else .ok { given with json := true }

/-- A long option may carry its value behind an equals sign. -/
def addLong (name : CommandName) (given : Given) (characters : List Char) :
    Except Usage Given :=
  let long := String.ofList (characters.takeWhile (· != '='))
  let value := (characters.dropWhile (· != '=')).tail?
  if long == "help" then
    .error (if value.isNone then .helpWanted (.command name) else .rejected)
  else
    match name.valueOption? long, name.flag? long, value with
    | some option, _, some value => given.addValue option (String.ofList value)
    | some option, _, none => .ok { given with awaiting := some option }
    | none, some flag, none => given.addFlag flag
    | _, _, _ => .error .rejected

/-- Short options share a hyphen; one that takes a value takes the rest of the word. -/
def addShort (name : CommandName) (given : Given) : List Char → Except Usage Given
  | [] => .ok given
  | 'v' :: rest => addShort name given rest
  | 'h' :: _ => .error (.helpWanted (.command name))
  | 'o' :: rest =>
      if name = .asm then
        match rest with
        | [] => .ok { given with awaiting := some .output }
        | '=' :: value => given.addValue .output (String.ofList value)
        | value => given.addValue .output (String.ofList value)
      else .error .rejected
  | _ => .error .rejected

def addWord (name : CommandName) (given : Given) (word : String) : Except Usage Given :=
  match given.awaiting with
  | some option => if isPlain word then given.addValue option word else .error .rejected
  | none =>
      if given.plainOnly || isPlain word then given.addPath word
      else
        match word.toList with
        | ['-', '-'] => .ok { given with plainOnly := true }
        | '-' :: '-' :: long => given.addLong name long
        | _ :: short => given.addShort name short
        | [] => .error .rejected

/-- The request is complete once the path is known and no option waits for its value. -/
def toRequest (name : CommandName) (given : Given) : Except Usage Request :=
  match given.path, given.awaiting with
  | some path, none =>
      .ok (match name with
        | .asm => .assemble path given.output
        | .run => .run path given.fuel given.trace
        | .dump => .dump path given.json
        | .ast => .showProgram path)
  | _, _ => .error .rejected

end Given

/-- Before the name of the command only the short option for a longer log is known. -/
def skipVerbosity : List Char → Except Usage Unit
  | [] => .ok ()
  | 'v' :: rest => skipVerbosity rest
  | 'h' :: _ => .error (.helpWanted .program)
  | _ => .error .rejected

/-- Help is about one command at most. -/
def helpUsage : List String → Usage
  | [] => .helpWanted .program
  | [word] =>
      if word == "help" then .helpWanted .help
      else
        match CommandName.ofWord? word with
        | some name => .helpWanted (.command name)
        | none => .rejected
  | _ => .rejected

def Request.ofWords : List String → Except Usage Request
  | [] => .error .rejected
  | word :: words =>
      if isPlain word then
        match CommandName.ofWord? word with
        | some name => do
            let given ← words.foldlM (Given.addWord name) .nothing
            given.toRequest name
        | none => .error (if word == "help" then helpUsage words else .rejected)
      else if word == "--help" then .error (.helpWanted .program)
      else do
        skipVerbosity word.toList.tail
        ofWords words

end RegisterMachine.CommandLine
