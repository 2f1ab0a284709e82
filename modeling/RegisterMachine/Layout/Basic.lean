/-
This file settles all addresses of a program before any instruction is encoded.
-/

import RegisterMachine.Layout.Placement

namespace RegisterMachine

open Source

/-- All addresses of a program and the contents of its data sections. -/
structure Layout extends Placement where
  entryPoint : UInt32

namespace Layout

def ofProgram (interner : Interner) (program : Program) : Except (Abort EmitError) Layout := do
  let placement ← program.toList.foldlM (Placement.addLine interner) .empty
  placement.checkCapacity.mapError .raised
  placement.checkGlobals interner
  return { placement with entryPoint := ← placement.entryPoint interner }

def isGlobal (layout : Layout) (name : Symbol) : Bool :=
  layout.globals.contains name

end Layout

end RegisterMachine
