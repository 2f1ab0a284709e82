/-
This file says once which handler each instruction has. An instruction prints, computes, or updates
the machine alone, and what holds of all handlers holds of every instruction.
-/

import RegisterMachine.Machine.Execute

namespace RegisterMachine

/-- The opcodes of arithmetic and logic on two operands. -/
def Opcode.isArithmetic : Opcode → Bool
  | add | sub | mul | div | mod | and | or => true
  | _ => false

/-- The opcodes that change the program counter and nothing else. -/
def Opcode.jumps : Opcode → Bool
  | jz | jnz | jeq | jgt | jge | jlt | jle | jmp => true
  | _ => false

namespace Machine

/-- The update of an instruction that neither prints nor computes on two operands. -/
inductive Updates (machine : Machine) (instruction : Instruction) :
    Except (Abort RuntimeError) Machine → Prop
  | move (opcode : instruction.opcode = .mov) :
      Updates machine instruction (machine.move instruction)
  | loadAddress (opcode : instruction.opcode = .loadAddr) :
      Updates machine instruction (machine.loadAddress instruction)
  | complement (opcode : instruction.opcode = .not) :
      Updates machine instruction (machine.complement instruction)
  | compare (opcode : instruction.opcode = .cmp) :
      Updates machine instruction (.ok machine.compare)
  | jump (jumps : instruction.opcode.jumps) :
      Updates machine instruction (machine.jump instruction)
  | call (opcode : instruction.opcode = .call) :
      Updates machine instruction (machine.call instruction)
  | returnFromCall (opcode : instruction.opcode = .ret) :
      Updates machine instruction machine.returnFromCall
  | push (opcode : instruction.opcode = .push) :
      Updates machine instruction (machine.pushRegister instruction)
  | pop (opcode : instruction.opcode = .pop) :
      Updates machine instruction (machine.popRegister instruction)
  | halt (opcode : instruction.opcode = .halt) :
      Updates machine instruction (.ok { machine with status := .halted })

/-- The outcome of an instruction is that of the handler of its opcode. -/
inductive Handled (machine : Machine) (sink : Sink) (instruction : Instruction) : Outcome → Prop
  | printCharacter (opcode : instruction.opcode = .printChr) :
      Handled machine sink instruction (machine.printCharacter sink instruction)
  | printText (opcode : instruction.opcode = .printStr) :
      Handled machine sink instruction (machine.printText sink instruction)
  | arithmetic (computes : instruction.opcode.isArithmetic) :
      Handled machine sink instruction (machine.arithmetic sink instruction)
  | update {updated : Except (Abort RuntimeError) Machine}
      (updates : Updates machine instruction updated) :
      Handled machine sink instruction (.ofUpdate machine sink updated)

theorem execute_handled (machine : Machine) (sink : Sink) (instruction : Instruction) :
    Handled machine sink instruction (machine.execute sink instruction) := by
  unfold execute
  cases opcode : instruction.opcode
  case printChr => exact .printCharacter opcode
  case printStr => exact .printText opcode
  case mov => exact .update (.move opcode)
  case loadAddr => exact .update (.loadAddress opcode)
  case add | sub | mul | div | mod | and | or => exact .arithmetic (by rw [opcode]; rfl)
  case not => exact .update (.complement opcode)
  case cmp => exact .update (.compare opcode)
  case jz | jnz | jeq | jgt | jge | jlt | jle | jmp =>
    exact .update (.jump (by rw [opcode]; rfl))
  case call => exact .update (.call opcode)
  case ret => exact .update (.returnFromCall opcode)
  case push => exact .update (.push opcode)
  case pop => exact .update (.pop opcode)
  case halt => exact .update (.halt opcode)

end Machine

end RegisterMachine
