/-
This file names places in a file system as seen from a working directory. A path may lead above
the working directory, and nothing is known about the names on the way back.
-/

namespace RegisterMachine.CommandLine

/-- A directory that exists whatever files there are. -/
inductive Landmark where
  | root
  /-- A directory some levels above the working directory, or with none that directory. -/
  | above (levels : Nat)
  deriving DecidableEq, Repr

/-- A place is known by the names on the way to it from a landmark. -/
structure Place where
  landmark : Landmark
  names : List String
  deriving DecidableEq, Repr

namespace Place

def root : Place := ⟨.root, []⟩

def workingDirectory : Place := ⟨.above 0, []⟩

/-- The place of a file in the working directory or below. -/
def inside (names : List String) : Place := ⟨.above 0, names⟩

def child (place : Place) (name : String) : Place :=
  ⟨place.landmark, place.names ++ [name]⟩

/-- The root is its own parent. -/
def parent (place : Place) : Place :=
  match place.landmark, place.names with
  | .above levels, [] => ⟨.above (levels + 1), []⟩
  | landmark, names => ⟨landmark, names.dropLast⟩

@[simp] theorem parentChild (place : Place) (name : String) : (place.child name).parent = place := by
  rcases place with ⟨landmark | levels, names⟩ <;> simp [child, parent]

/-- Whether a place lies below another one. -/
def isBelow (place directory : Place) : Bool :=
  place.landmark = directory.landmark && directory.names.isPrefixOf place.names &&
    place.names != directory.names

end Place

end RegisterMachine.CommandLine
