/-
This file writes containers as text: one line for each row of eight bytes.
-/

import RegisterMachine.Container.Basic
import RegisterMachine.Instruction.Disassembly
import RegisterMachine.Segment

namespace RegisterMachine

/-- One row of code: where it stands, its bytes and what they mean. -/
structure ListingLine where
  address : Nat
  bytes : String
  text : String
  deriving DecidableEq, Repr

namespace Container

/-- Bytes as pairs of digits with one space between them. -/
def hexColumn (bytes : List UInt8) : String :=
  " ".intercalate (bytes.map fun byte => String.ofList (Text.byteDigits byte))

/-- The width of a column that holds a full row. -/
def hexColumnWidth : Nat := 3 * Instruction.byteSize - 1

/-- Spaces follow a text that is shorter than its column. -/
def padRight (width : Nat) (text : String) : String :=
  text ++ String.ofList (List.replicate (width - text.length) ' ')

/-- A byte that is no visible ASCII character and no space is shown as a point. -/
def printableColumn (bytes : List UInt8) : String :=
  String.ofList (bytes.map fun byte =>
    if 0x20 ≤ byte.toNat ∧ byte.toNat ≤ 0x7E then Char.ofNat byte.toNat else '.')

/-- A row that is no instruction says why. -/
def rowText (row : List UInt8) : String :=
  match Instruction.decode? row with
  | some (.ok instruction) => instruction.text
  | some (.error reason) => "<invalid: " ++ reason.message ++ ">"
  | none => "<truncated>"

def listing (container : Container) : List ListingLine :=
  (offsetRows container.code).map fun (offset, row) => {
    address := Segment.code.base.toNat + offset
    bytes := hexColumn row
    text := rowText row }

/-- Address, bytes and explanation stand in columns. -/
def columns (address : Nat) (bytes explanation : String) : String :=
  Text.address address ++ "  " ++ padRight hexColumnWidth bytes ++ "  " ++ explanation ++ "\n"

def dumpHeader (header : Header) : String :=
  let magic :=
    if header.hasExpectedMagic then "BTVM"
    else Text.hexadecimal 8 header.magic.toNat ++ " (unexpected)"
  "[header]\n" ++
    "magic    " ++ magic ++ "\n" ++
    s!"version  {header.version.toNat}\n" ++
    "entry    " ++ Text.address header.entryPoint.toNat ++ "\n" ++
    s!"code     {header.codeLength.toNat} bytes\n" ++
    s!"rodata   {header.rodataLength.toNat} bytes\n" ++
    s!"data     {header.dataLength.toNat} bytes\n"

def dumpCode (container : Container) : String :=
  match container.listing with
  | [] => ""
  | lines =>
      "\n[code]\n" ++
        String.join (lines.map fun line => columns line.address line.bytes line.text)

/-- A section without bytes is left out. -/
def dumpBytes (segment : Segment) (bytes : List UInt8) : String :=
  match offsetRows bytes with
  | [] => ""
  | lines =>
      "\n[" ++ segment.name ++ "]\n" ++
        String.join (lines.map fun (offset, row) =>
          columns (segment.base.toNat + offset) (hexColumn row) (printableColumn row))

/-- The whole container for a reader. -/
def dump (container : Container) : String :=
  dumpHeader container.header ++ container.dumpCode ++
    dumpBytes .rodata container.rodata ++ dumpBytes .data container.data

end Container

end RegisterMachine
