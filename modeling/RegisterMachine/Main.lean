/-
This file runs the command line on the files of the system.
-/

import RegisterMachine.CommandLine.Response

namespace RegisterMachine.CommandLine

/-- The number of the system for a directory in place of a file. -/
def isDirectoryNumber : UInt32 := 21

/-- The number of the system for a name or path that is too long. -/
def nameTooLongNumber : UInt32 := 36

/-- The numbers of the system come with either sign. -/
def hasNumber (found number : UInt32) : Bool :=
  found = number || found = -number

/-- Errors of the system that have a wording of their own. -/
def fileErrorOf : IO.Error → FileError
  | .noFileOrDirectory .. => .notFound
  | .permissionDenied .. => .permissionDenied
  | .inappropriateType _ number _ =>
      if hasNumber number isDirectoryNumber then .isDirectory else .notDirectory
  | .invalidArgument (some file) number details =>
      if hasNumber number nameTooLongNumber then .nameTooLong
      else .other (toString (IO.Error.invalidArgument (some file) number details))
  | error => .other (toString error)

def readFile (path : String) : IO (Except FileError (List UInt8)) := do
  try
    let contents ← IO.FS.readBinFile path
    return .ok contents.data.toList
  catch error => return .error (fileErrorOf error)

def writeFile (path : String) (contents : List UInt8) : IO (Except FileError Unit) := do
  try
    IO.FS.writeBinFile path ⟨contents.toArray⟩
    return .ok ()
  catch error => return .error (fileErrorOf error)

def present (response : Response) : IO UInt32 := do
  let stdout ← IO.getStdout
  stdout.write ⟨response.stdout.toArray⟩
  stdout.flush
  IO.eprint response.stderr
  return UInt32.ofNat response.status

/-- One command on the files of the system. -/
def perform (words : List String) : IO UInt32 := do
  match Request.ofWords words with
  | .error usage => present (.usage usage)
  | .ok request =>
      match request.answer (← readFile request.path) with
      | .response response => present response
      | .write path contents =>
          match ← writeFile path contents with
          | .ok () => present .silent
          | .error reason => present (.unwritable path reason)

end RegisterMachine.CommandLine

def main (words : List String) : IO UInt32 :=
  RegisterMachine.CommandLine.perform words
