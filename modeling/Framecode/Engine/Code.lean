import Framecode.Engine.Labels

/-! Loaded programs: the instructions in the order of execution, checked, with
the positions of their labels. -/
namespace Framecode.Engine

/-- A program that can be run. -/
structure Code where
  instructions : List Instruction
  labels : LabelTable
  deriving DecidableEq, Repr

namespace Code

/-- Check instructions that are sorted by order: every order exceeds the one
before, the first one exceeds zero, and every instruction is well formed. The
fault is that of the first instruction that fails, a wrong order before wrong
arguments. -/
def check (last : UInt32) : List Instruction → Except Fault Unit
  | [] => .ok ()
  | instr :: rest =>
    if instr.order ≤ last then .error ⟨instr.order, .invalidOrder⟩
    else if instr.isWellFormed then check instr.order rest
    else .error ⟨instr.order, .malformedInstruction instr.opcode⟩

/-- Load a program. -/
def load (program : Program) : Except Fault Code :=
  let instructions := program.sorted
  match check 0 instructions with
  | .error fault => .error fault
  | .ok () =>
    match LabelTable.ofInstructions instructions with
    | .error fault => .error fault
    | .ok labels => .ok ⟨instructions, labels⟩

/-- The number of instructions. -/
def size (code : Code) : Nat := code.instructions.length

/-- The instruction at a position, counted from one. -/
def fetch? (code : Code) (position : Nat) : Option Instruction :=
  if position = 0 then none else code.instructions[position - 1]?

end Code

end Framecode.Engine
