import Framecode.Opcode

/-! Programs: lists of instructions, each with a number that fixes its place in
the order of execution. -/
namespace Framecode

/-- An instruction: its place in the order of execution, its opcode and its
arguments. Nothing ties the arguments to the opcode; `isWellFormed` checks that. -/
structure Instruction where
  order : UInt32
  opcode : Opcode
  args : List Argument
  deriving DecidableEq, Repr

namespace Instruction

/-- The spelling of an instruction in source text: the mnemonic, then every
argument after a space. -/
def display (instr : Instruction) : String :=
  instr.opcode.mnemonic ++ String.join (instr.args.map fun arg => " " ++ arg.display)

/-- Whether the arguments are as many as the operands of the opcode, and each is
of a kind that its position takes. -/
def isWellFormed (instr : Instruction) : Bool :=
  instr.args.length == instr.opcode.arity &&
    (instr.opcode.operands.zip instr.args).all fun pair => pair.1.accepts pair.2.kind

end Instruction

/-- A program. The list is as it was read; execution follows the orders. -/
structure Program where
  instructions : List Instruction
  deriving DecidableEq, Repr

namespace Program

/-- Number a sequence of instructions 1, 2, 3, and so on from a start. -/
def number (start : Nat) : List (Opcode × List Argument) → List Instruction
  | [] => []
  | (opcode, args) :: rest => ⟨UInt32.ofNat start, opcode, args⟩ :: number (start + 1) rest

/-- The program that runs a sequence of instructions in the order given. -/
def ofSequence (sequence : List (Opcode × List Argument)) : Program := ⟨number 1 sequence⟩

/-- Whether a program has no instructions. -/
def isEmpty (program : Program) : Bool := program.instructions.isEmpty

/-- The instructions in the order of execution. Instructions of one order stay
as they stand. -/
def sorted (program : Program) : List Instruction :=
  program.instructions.mergeSort fun left right => left.order ≤ right.order

end Program

end Framecode
