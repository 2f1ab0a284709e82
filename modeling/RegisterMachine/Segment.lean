/-
This file divides the memory image into its segments.
-/

namespace RegisterMachine

/-- The memory image holds five mebibytes. -/
def imageSize : Nat := 5 * 1024 * 1024

/-- The parts of the image in the order of their addresses. -/
inductive Segment where
  | code
  | rodata
  | data
  | heap
  | stack
  deriving DecidableEq, Repr, Inhabited

namespace Segment

def all : List Segment := [code, rodata, data, heap, stack]

def base : Segment → UInt32
  | code => 0x000000
  | rodata => 0x080000
  | data => 0x0C0000
  | heap => 0x100000
  | stack => 0x4C0000

/-- One past the last address; each segment ends where the next begins. -/
def limit : Segment → UInt32
  | code => rodata.base
  | rodata => data.base
  | data => heap.base
  | heap => stack.base
  | stack => UInt32.ofNat imageSize

def size (segment : Segment) : UInt32 :=
  segment.limit - segment.base

def contains (segment : Segment) (address : UInt32) : Bool :=
  segment.base ≤ address && address < segment.limit

/-- The segment that holds an address, if the address is inside the image. -/
def of? (address : UInt32) : Option Segment :=
  all.find? fun segment => segment.contains address

def name : Segment → String
  | code => "code"
  | rodata => "rodata"
  | data => "data"
  | heap => "heap"
  | stack => "stack"

end Segment

end RegisterMachine
