/-
This file decides what a single lexeme stands for: a separator, a register, a directive, a
number, a character, a string or a name.
-/

import RegisterMachine.Isa.Directive
import RegisterMachine.Isa.Register
import RegisterMachine.Text.Numeral

namespace RegisterMachine.Source

/-- Which end of the range of words a literal lies beyond. -/
inductive Excess where
  | above
  | below
  deriving DecidableEq, Repr

/-- What a lexeme stands for, before texts are interned. -/
inductive Reading where
  | comma
  | endOfLine
  | register (named : Register)
  | directive (named : Directive)
  | integer (value : UInt32) (excess : Option Excess)
  | char (byte : UInt8)
  | string (text : String)
  | identifier (name : String)
  deriving DecidableEq, Repr

namespace Reading

def isLetter (character : Char) : Bool :=
  character.isAlpha || character == '_'

def isNameCharacter (character : Char) : Bool :=
  character.isAlphanum || character == '_'

def isHexDigit (character : Char) : Bool :=
  character.isDigit || ('a' ≤ character && character ≤ 'f') || ('A' ≤ character && character ≤ 'F')

/-- The value of a digit of a base of at most sixteen. -/
def digitValue (character : Char) : Nat :=
  if character.isDigit then character.toNat - '0'.toNat
  else if 'a' ≤ character then character.toNat - 'a'.toNat + 10
  else character.toNat - 'A'.toNat + 10

/-- Above all words, so that larger numbers need not be told apart. -/
def magnitudeBound : Nat := 0x100000000

/-- How far from zero a number is, up to the bound. -/
def magnitude (base : Nat) (digits : List Char) : Nat :=
  Text.boundedValue magnitudeBound base (digits.map digitValue)

/-- A colon may end a name. -/
def withoutColon (characters : List Char) : List Char :=
  if characters.getLast? = some ':' then characters.dropLast else characters

/-- A name begins with a letter or underscore, and no digit comes second. -/
def isName (characters : List Char) : Bool :=
  match characters with
  | [] => false
  | first :: _ =>
      isLetter first &&
        match (withoutColon characters).drop 1 with
        | [] => true
        | second :: rest => isLetter second && rest.all isNameCharacter

/-- The word for a sign and a magnitude; a number that is too far from zero becomes the nearest
end of its range. -/
def clamp (negative : Bool) (magnitude : Nat) : UInt32 × Option Excess :=
  if negative then
    if 0x80000000 < magnitude then (0x80000000, some .below)
    else (UInt32.ofNat (0x100000000 - magnitude), none)
  else if 0xFFFFFFFF < magnitude then (0xFFFFFFFF, some .above)
  else (UInt32.ofNat magnitude, none)

/-- The bound is far enough from zero for both ends of the range. -/
theorem clampMinMagnitudeBound (negative : Bool) (magnitude : Nat) :
    clamp negative (min magnitudeBound magnitude) = clamp negative magnitude := by
  rcases Nat.le_total magnitude magnitudeBound with within | beyond
  · rw [Nat.min_eq_right within]
  · have far : 0x100000000 ≤ magnitude := beyond
    rw [Nat.min_eq_left beyond]
    unfold clamp magnitudeBound
    cases negative <;> simp <;> omega

/-- The base and the digits of a number without its sign. -/
def radixDigits : List Char → Nat × List Char
  | '0' :: 'x' :: digits | '0' :: 'X' :: digits => (16, digits)
  | digits => (10, digits)

def unsignedMagnitude? (characters : List Char) : Option Nat :=
  let (base, digits) := radixDigits characters
  let isDigit := if base = 16 then isHexDigit else Char.isDigit
  if digits ≠ [] ∧ digits.all isDigit then some (magnitude base digits) else none

def integer? (characters : List Char) : Option Reading :=
  let (negative, digits) :=
    match characters with
    | '-' :: digits => (true, digits)
    | digits => (false, digits)
  (unsignedMagnitude? digits).map fun magnitude =>
    let (value, excess) := clamp negative magnitude
    .integer value excess

/-- A number begins with a digit, or with a minus sign and a digit. -/
def beginsNumber : List Char → Bool
  | '-' :: second :: _ => second.isDigit
  | first :: _ => first.isDigit
  | [] => false

/-- The characters between two double quotes. -/
def betweenQuotes? : List Char → Option (List Char)
  | '"' :: rest => if rest.getLast? = some '"' then some rest.dropLast else none
  | _ => none

/-- The byte between two single quotes; wider characters have none. -/
def quotedByte? : List Char → Option UInt8
  | ['\'', character, '\''] =>
      if character.toNat < 128 then some (UInt8.ofNat character.toNat) else none
  | _ => none

/-- Number of bytes that characters take in UTF-8. -/
def byteLength (characters : List Char) : Nat :=
  characters.foldl (fun total character => total + character.utf8Size) 0

/-- A directive takes at least four bytes, the point included. -/
def directive? (characters : List Char) : Option Reading :=
  if 4 ≤ byteLength characters then
    some (.directive (Directive.ofName (String.ofList characters)))
  else none

/-- The reading of a lexeme that is no separator and no register. -/
def ofOrdinary? (characters : List Char) : Option Reading :=
  if characters.head? = some '.' then directive? characters
  else if beginsNumber characters then integer? characters
  else if characters.head? = some '\'' then (quotedByte? characters).map .char
  else if characters.head? = some '"' then
    (betweenQuotes? characters).map fun inside => .string (String.ofList inside)
  else if isName characters then some (.identifier (String.ofList characters))
  else none

/-- Separators come first, then register names, then the rest by its first character. -/
def of? (characters : List Char) : Option Reading :=
  if characters = [','] then some .comma
  else if characters = ['\n'] then some .endOfLine
  else
    match Register.ofName? (String.ofList characters) with
    | some found => some (.register found)
    | none => ofOrdinary? characters

end Reading

end RegisterMachine.Source
