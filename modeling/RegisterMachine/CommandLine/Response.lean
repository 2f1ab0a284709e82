/-
This file answers requests. An answer depends on the contents of one file and says what to print
and what to write.
-/

import RegisterMachine.Assembler
import RegisterMachine.CommandLine.Arguments
import RegisterMachine.CommandLine.FileTree
import RegisterMachine.CommandLine.Help
import RegisterMachine.Container.Listing
import RegisterMachine.Machine.Load
import RegisterMachine.Machine.Run

namespace RegisterMachine.CommandLine

/-- What a command prints and the status with which it ends. -/
structure Response where
  status : Nat
  stdout : List UInt8
  stderr : String
  deriving DecidableEq, Repr

namespace Response

/-- Texts are printed in UTF-8. -/
def printed (text : String) : Response :=
  ⟨0, text.toUTF8.data.toList, ""⟩

def silent : Response := ⟨0, [], ""⟩

/-- Errors are printed in one line. -/
def failed (status : Nat) (reason : String) : Response :=
  ⟨status, [], "error: " ++ reason ++ "\n"⟩

/-- Help that was asked for is printed, and wrong usage has a status of its own. -/
def usage : Usage → Response
  | .helpWanted topic => printed topic.page.text
  | .rejected => ⟨2, [], ""⟩

/-- A defect ends the command at once. -/
def defect (cause : Defect) : Response :=
  ⟨101, [], cause.message ++ "\n"⟩

def unreadable (path : String) (reason : FileError) : Response :=
  failed 1 ("failed to read '" ++ path ++ "': " ++ reason.message)

def unwritable (path : String) (reason : FileError) : Response :=
  failed 1 ("failed to write '" ++ path ++ "': " ++ reason.message)

end Response

/-- A response, or bytes to write to a file. -/
inductive Answer where
  | response (response : Response)
  | write (path : String) (contents : List UInt8)
  deriving DecidableEq, Repr

namespace Request

/-- The file that the request is about. -/
def path : Request → String
  | assemble source _ => source
  | run bytecode _ _ => bytecode
  | dump bytecode _ => bytecode
  | showProgram source => source

end Request

/-- The name of the container for a source: the ending behind the last point is replaced, and a
point at the start begins no ending. If only two points stand before the ending, they name the
parent directory and take no other ending. -/
def containerName (name : List Char) : List Char :=
  match name.reverse.dropWhile (· != '.') with
  | [] | ['.'] => name ++ ".bc".toList
  | ['.', '.'] => "..".toList
  | _ :: before => before.reverse ++ ".bc".toList

/-- A container stands beside its source. -/
def defaultOutput (source : String) : String :=
  let reversed := source.toList.reverse
  let name := (reversed.takeWhile (· != '/')).reverse
  let directory := (reversed.dropWhile (· != '/')).reverse
  String.ofList (directory ++ containerName name)

/-- Only valid UTF-8 is source text. -/
def sourceText? (contents : List UInt8) : Option String :=
  String.fromUTF8? ⟨contents.toArray⟩

/-- A listing line as an object of three fields; its texts need no escapes. -/
def listingObject (line : ListingLine) : String :=
  "  \x7b\n    \"address\": " ++ toString line.address ++ ",\n    \"bytes\": \"" ++ line.bytes ++
    "\",\n    \"text\": \"" ++ line.text ++ "\"\n  \x7d"

/-- A listing as an array of objects. -/
def listingArray : List ListingLine → String
  | [] => "[]\n"
  | lines => "[\n" ++ ",\n".intercalate (lines.map listingObject) ++ "\n]\n"

def answerAssemble (path output : String) (contents : List UInt8) : Answer :=
  match sourceText? contents with
  | none => .response (.unreadable path .invalidText)
  | some source =>
      match (Source.assemble Source.Program.defaultCapacity source).value with
      | .ok container => .write output container.toBytes
      | .error (.raised reason) => .response (.failed 1 reason.message)
      | .error (.defect cause) => .response (.defect cause)

def answerShowProgram (path : String) (contents : List UInt8) : Answer :=
  match sourceText? contents with
  | none => .response (.unreadable path .invalidText)
  | some source =>
      match (Source.read Source.Program.defaultCapacity source).value with
      | .error (.raised reason) => .response (.failed 1 reason.message)
      | .error (.defect cause) => .response (.defect cause)
      | .ok (program, interner) =>
          match program.render interner with
          | .ok text => .response (.printed text)
          | .error cause => .response (.defect cause)

def answerDump (json : Bool) (contents : List UInt8) : Answer :=
  match Container.ofBytes contents with
  | .error reason => .response (.failed 1 reason.message)
  | .ok container =>
      .response (.printed (if json then listingArray container.listing else container.dump))

/-- More steps than any run can take in a lifetime. -/
def stepBound : Nat := 1 <<< 62

/-- A trace is printed before the error that ended the run. -/
def responseOfRun (progress : Progress) : Response :=
  let traced := String.join (progress.trace.map fun event => event.text ++ "\n")
  let stdout := progress.sink.written.toList
  match progress.result with
  | .ok () => ⟨0, stdout, traced⟩
  | .error (.raised fault) =>
      ⟨fault.error.code.number, stdout, traced ++ "error: " ++ fault.message ++ "\n"⟩
  | .error (.defect cause) => .defect cause

def answerRun (fuel : Option UInt32) (trace : Bool) (contents : List UInt8) : Answer :=
  match ((Machine.empty fuel).load contents).value with
  | .error (.raised reason) => .response (.failed reason.code.number reason.message)
  | .error (.defect cause) => .response (.defect cause)
  | .ok machine =>
      match machine.run trace stepBound .unlimited with
      | some progress => .response (responseOfRun progress)
      | none => .response .silent

/-- The answer to a request once its file was read. -/
def Request.answer (request : Request) (found : Except FileError (List UInt8)) : Answer :=
  match found with
  | .error reason => .response (.unreadable request.path reason)
  | .ok contents =>
      match request with
      | .assemble source output =>
          answerAssemble source (output.getD (defaultOutput source)) contents
      | .run _ fuel trace => answerRun fuel trace contents
      | .dump _ json => answerDump json contents
      | .showProgram source => answerShowProgram source contents

namespace FileTree

/-- One command on the files of a tree. -/
def perform (tree : FileTree) (words : List String) : Response × FileTree :=
  match Request.ofWords words with
  | .error usage => (.usage usage, tree)
  | .ok request =>
      match request.answer (tree.read request.path) with
      | .response response => (response, tree)
      | .write path contents =>
          match tree.write path contents with
          | .ok written => (.silent, written)
          | .error reason => (.unwritable path reason, tree)

/-- Commands one after the other, each on the files that the ones before left. -/
def performAll (tree : FileTree) : List (List String) → List Response × FileTree
  | [] => ([], tree)
  | words :: rest =>
      let (response, after) := tree.perform words
      let (responses, last) := after.performAll rest
      (response :: responses, last)

end FileTree

end RegisterMachine.CommandLine
