/-
This file names the directives of the assembly language.
-/

namespace RegisterMachine

/-- A word that begins with a point but names no directive is `unknown`. -/
inductive Directive where
  | start
  | data
  | rodata
  | global
  | unknown
  deriving DecidableEq, Repr, Inhabited

namespace Directive

def name : Directive → String
  | start => ".START"
  | data => ".DATA"
  | rodata => ".RODATA"
  | global => ".GLOBAL"
  | unknown => ".?"

/-- Directive names have one spelling, case included. -/
def ofName (text : String) : Directive :=
  ([start, data, rodata, global].find? fun directive => directive.name == text).getD unknown

end Directive

end RegisterMachine
