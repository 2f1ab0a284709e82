/-
This file models the files that a command line can reach. A directory exists if a file lies in it.
-/

import RegisterMachine.CommandLine.Place

namespace RegisterMachine.CommandLine

/-- Why a file can not be read or written. -/
inductive FileError where
  | notFound
  | notDirectory
  | isDirectory
  | permissionDenied
  | nameTooLong
  | invalidText
  | other (reason : String)
  deriving DecidableEq, Repr

def FileError.message : FileError → String
  | notFound => "No such file or directory (os error 2)"
  | notDirectory => "Not a directory (os error 20)"
  | isDirectory => "Is a directory (os error 21)"
  | permissionDenied => "Permission denied (os error 13)"
  | nameTooLong => "File name too long (os error 36)"
  | invalidText => "stream did not contain valid UTF-8"
  | other reason => reason

/-- The bytes at a place. -/
structure File where
  place : Place
  contents : List UInt8
  deriving DecidableEq, Repr

/-- Each place has at most one file. -/
structure FileTree where
  files : List File
  deriving DecidableEq, Repr

/-- What a path ends in: a directory, or a name that is still to be looked up in one. A slash
behind the name asks for a directory. -/
inductive Target where
  | directory (place : Place)
  | entry (directory : Place) (name : String) (slash : Bool)
  deriving DecidableEq, Repr

namespace FileTree

def empty : FileTree := ⟨[]⟩

def find? (tree : FileTree) (place : Place) : Option (List UInt8) :=
  (tree.files.find? fun file => file.place == place).map File.contents

def put (tree : FileTree) (place : Place) (contents : List UInt8) : FileTree :=
  ⟨tree.files.filter (fun file => file.place != place) ++ [⟨place, contents⟩]⟩

/-- A directory is a landmark or has a file below it. -/
def isDirectory (tree : FileTree) (place : Place) : Bool :=
  place.names.isEmpty || tree.files.any fun file => file.place.isBelow place

/-- The most bytes that a name has. -/
def nameCapacity : Nat := 255

/-- The most bytes that a path has. -/
def pathCapacity : Nat := 4095

/-- Names that are too long are refused before anything is looked up. -/
def locate (directory : Place) (name : String) : Except FileError Place :=
  if nameCapacity < name.utf8ByteSize then .error .nameTooLong
  else .ok (directory.child name)

/-- Names that stand for a directory wherever they are used. -/
def isRelation (name : String) : Bool :=
  name == "." || name == ".."

/-- One step from a directory to the next. -/
def enter (tree : FileTree) (directory : Place) (name : String) : Except FileError Place := do
  if name == "." then return directory
  if name == ".." then return directory.parent
  let place ← locate directory name
  if tree.isDirectory place then return place
  if (tree.find? place).isSome then throw .notDirectory
  throw .notFound

/-- Slashes separate names, and several in a row count as one. -/
def namesOf (path : String) : List String :=
  (path.splitOn "/").filter (· != "")

/-- A slash in front leads to the root. -/
def startOf (path : String) : Place :=
  if path.startsWith "/" then .root else .workingDirectory

/-- Follows a path through all its names but the last. -/
def resolve (tree : FileTree) (path : String) : Except FileError Target := do
  if pathCapacity < path.utf8ByteSize then throw .nameTooLong
  let names := namesOf path
  let directory ← names.dropLast.foldlM tree.enter (startOf path)
  match names.getLast? with
  | none => return .directory directory
  | some name =>
      if isRelation name then return .directory (← tree.enter directory name)
      return .entry directory name (path.endsWith "/")

def read (tree : FileTree) (path : String) : Except FileError (List UInt8) := do
  match ← tree.resolve path with
  | .directory _ => throw .isDirectory
  | .entry directory name true => do
      let _ ← tree.enter directory name
      throw .isDirectory
  | .entry directory name false => do
      let place ← locate directory name
      if tree.isDirectory place then throw .isDirectory
      match tree.find? place with
      | some contents => return contents
      | none => throw .notFound

/-- A name with a slash behind it is not looked up, since a directory is not written. -/
def write (tree : FileTree) (path : String) (contents : List UInt8) :
    Except FileError FileTree := do
  match ← tree.resolve path with
  | .directory _ | .entry _ _ true => throw .isDirectory
  | .entry directory name false => do
      let place ← locate directory name
      if tree.isDirectory place then throw .isDirectory
      return tree.put place contents

/-- Files in the working directory or below that the earlier tree does not have with the same
contents, with their paths. -/
def changesSince (before tree : FileTree) : List (String × List UInt8) :=
  tree.files.filterMap fun file =>
    if file.place.landmark ≠ .above 0 ∨ before.find? file.place = some file.contents then none
    else some ("/".intercalate file.place.names, file.contents)

end FileTree

end RegisterMachine.CommandLine
