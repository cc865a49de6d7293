import Framecode.Source.Header
import Framecode.Source.Operand
import Framecode.Source.Stats
import Framecode.Text.Lines

/-! Source text. The first line that holds a word must be the header, and every
later one an instruction. Words are separated by blanks, and a number sign
starts a comment that runs to the end of its line. -/
namespace Framecode.Source

/-- A line of source text: its number, counted from one, and its words. -/
structure Line where
  number : Nat
  words : List String
  deriving DecidableEq, Repr

/-- The words of a line, comment excluded. -/
def wordsOf (line : List Char) : List String :=
  (Text.words (line.takeWhile (· != '#'))).map String.ofList

/-- Number lines from a start. -/
def numberLines (start : Nat) : List (List Char) → List Line
  | [] => []
  | line :: rest => ⟨start, wordsOf line⟩ :: numberLines (start + 1) rest

/-- The lines of a text that hold a word. -/
def meaningfulLines (lines : List (List Char)) : List Line :=
  (numberLines 1 lines).filter fun line => !line.words.isEmpty

/-- The number of lines with a comment. -/
def commentedLines (lines : List (List Char)) : Nat := lines.countP fun line => line.contains '#'

/-- Read the words of an instruction. -/
def readWords : List String → Except Problem (Opcode × List Argument)
  | [] => .error (.unknownOpcode "")
  | mnemonic :: words =>
    if isHeader mnemonic then .error .misplacedHeader
    else match Opcode.ofMnemonic? mnemonic with
      | none => .error (.unknownOpcode mnemonic)
      | some opcode =>
        if words.length = opcode.arity then
          (readOperands opcode.operands words).map fun args => (opcode, args)
        else .error (.argumentCount opcode words.length)

/-- Read lines of instructions up to the first fault. -/
def readLines : List Line → Except Error (List (Opcode × List Argument))
  | [] => .ok []
  | line :: rest =>
    match readWords line.words with
    | .error problem => .error ⟨line.number, problem⟩
    | .ok instruction =>
      match readLines rest with
      | .error error => .error error
      | .ok instructions => .ok (instruction :: instructions)

/-- Read the lines of a text. Without any word the header is missed on the last
line, which is line one when there is none. -/
def assembleLines (lines : List (List Char)) : Except Error Program :=
  match meaningfulLines lines with
  | [] => .error ⟨max 1 lines.length, .missingHeader⟩
  | first :: rest =>
    match first.words with
    | [word] =>
      if isHeader word then (readLines rest).map Program.ofSequence
      else .error ⟨first.number, .missingHeader⟩
    | _ => .error ⟨first.number, .missingHeader⟩

/-- Read a source text. -/
def assemble (text : String) : Except Error Program := assembleLines (Text.lines text.toList)

/-- Read a source text and gather its statistics. -/
def assembleWithStats (text : String) : Except Error (Program × Stats) :=
  let lines := Text.lines text.toList
  (assembleLines lines).map fun program =>
    (program, Stats.ofProgram program (commentedLines lines))

end Framecode.Source
