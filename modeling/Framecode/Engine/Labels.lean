import Framecode.Engine.Fault

/-! Labels and the positions they stand for. Positions count the instructions of
a list from one. -/
namespace Framecode.Engine

/-- Labels with their positions, the latest one first. -/
structure LabelTable where
  entries : List (String × Nat) := []
  deriving DecidableEq, Repr

namespace LabelTable

/-- The number of labels. -/
def size (table : LabelTable) : Nat := table.entries.length

/-- Whether there are no labels. -/
def isEmpty (table : LabelTable) : Bool := table.entries.isEmpty

/-- The position of a label. -/
def position? (table : LabelTable) (name : String) : Option Nat := table.entries.lookup name

/-- Add the label that the instruction at a position defines, if it defines one.
A label can be defined once. -/
def add (table : LabelTable) (position : Nat) (instr : Instruction) : Except Fault LabelTable :=
  if instr.opcode = .label then
    match instr.args with
    | [] => .error ⟨instr.order, .malformedInstruction instr.opcode⟩
    | arg :: _ =>
      if (table.position? arg.text).isSome then .error ⟨instr.order, .duplicateLabel arg.text⟩
      else .ok ⟨(arg.text, position) :: table.entries⟩
  else .ok table

/-- Add the labels of instructions that stand at a position and after it. -/
def addAll (table : LabelTable) (position : Nat) : List Instruction → Except Fault LabelTable
  | [] => .ok table
  | instr :: rest =>
    match table.add position instr with
    | .error fault => .error fault
    | .ok next => next.addAll (position + 1) rest

/-- The labels of a list of instructions. -/
def ofInstructions (instructions : List Instruction) : Except Fault LabelTable :=
  addAll {} 1 instructions

end LabelTable

end Framecode.Engine
