import Framecode.Program

/-! Statistics of a program, gathered one instruction at a time, and the reports
made from them. Jumps are told apart by where their target is first defined: a
forward jump goes to a label further down, a back jump to one further up, and a
bad jump to a label that is never defined. -/
namespace Framecode.Source

/-- One record of a report. -/
inductive Stat where
  | loc
  | comments
  | labels
  | jumps
  | fwJumps
  | backJumps
  | badJumps
  | frequent
  | print (text : String)
  | eol
  deriving DecidableEq, Repr

/-- Counters over a program and the text it was written in. Instructions are
counted from zero. -/
structure Stats where
  /-- The number of instructions. -/
  loc : Nat := 0
  /-- The number of source lines with a comment. -/
  comments : Nat := 0
  /-- Every label with the index of its first definition. -/
  definitions : List (String × Nat) := []
  /-- The number of jumps, calls and returns. -/
  jumps : Nat := 0
  /-- The target and the index of every jump or call. -/
  targets : List (String × Nat) := []
  /-- How often each opcode occurs, for the opcodes that do. -/
  counts : List (Opcode × Nat) := []
  deriving DecidableEq, Repr

namespace Stats

/-- Count one more occurrence of an opcode. -/
def count (opcode : Opcode) : List (Opcode × Nat) → List (Opcode × Nat)
  | [] => [(opcode, 1)]
  | entry :: rest =>
    if entry.1 = opcode then (opcode, entry.2 + 1) :: rest else entry :: count opcode rest

/-- The label that an instruction defines or goes to. -/
def labelOf (instr : Instruction) : String := (instr.args.head?.map Argument.text).getD ""

/-- Add one instruction. The first definition of a label is the one that counts. -/
def record (stats : Stats) (instr : Instruction) : Stats :=
  let label := labelOf instr
  let counted := { stats with loc := stats.loc + 1, counts := count instr.opcode stats.counts }
  match instr.opcode with
  | .label =>
    if (stats.definitions.lookup label).isSome then counted
    else { counted with definitions := stats.definitions ++ [(label, stats.loc)] }
  | .call | .jump | .jumpIfEq | .jumpIfNeq =>
    { counted with jumps := stats.jumps + 1, targets := stats.targets ++ [(label, stats.loc)] }
  | .ret => { counted with jumps := stats.jumps + 1 }
  | _ => counted

/-- The statistics of a program and the number of its commented lines. -/
def ofProgram (program : Program) (comments : Nat) : Stats :=
  program.instructions.foldl record { comments }

/-- The number of distinct labels defined. -/
def labels (stats : Stats) : Nat := stats.definitions.length

/-- The number of jumps and calls such that the first definition of the target,
if any, and the index of the jump satisfy a condition. -/
def countTargets (stats : Stats) (holds : Option Nat → Nat → Bool) : Nat :=
  stats.targets.countP fun target => holds (stats.definitions.lookup target.1) target.2

/-- The number of jumps to a label further down. -/
def fwJumps (stats : Stats) : Nat :=
  stats.countTargets fun definition index => definition.any (index < ·)

/-- The number of jumps to a label further up. -/
def backJumps (stats : Stats) : Nat :=
  stats.countTargets fun definition index => definition.any (· < index)

/-- The number of jumps to a label that is not defined. -/
def badJumps (stats : Stats) : Nat := stats.countTargets fun definition _ => definition.isNone

/-- The highest number of occurrences of one opcode. -/
def highest (stats : Stats) : Nat := (stats.counts.map Prod.snd).foldl max 0

/-- The mnemonics that occur most often, in alphabetical order. -/
def frequent (stats : Stats) : List String :=
  ((stats.counts.filter (·.2 = stats.highest)).map (·.1.mnemonic)).mergeSort (· ≤ ·)

/-- The text of one record. -/
def render (stats : Stats) : Stat → String
  | .loc => toString stats.loc
  | .comments => toString stats.comments
  | .labels => toString stats.labels
  | .jumps => toString stats.jumps
  | .fwJumps => toString stats.fwJumps
  | .backJumps => toString stats.backJumps
  | .badJumps => toString stats.badJumps
  | .frequent => ",".intercalate stats.frequent
  | .print text => text
  | .eol => ""

/-- A report: the records given, each on a line. -/
def report (stats : Stats) (records : List Stat) : String :=
  String.join (records.map fun stat => stats.render stat ++ "\n")

end Stats

end Framecode.Source
