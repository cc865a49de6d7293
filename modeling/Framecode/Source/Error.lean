import Framecode.Opcode

/-! Faults of source text: what is wrong and on which line. -/
namespace Framecode.Source

/-- What an operand position asked for when the word there did not fit. A word
that starts like a literal, and does not spell one, was to be a literal. -/
inductive Expected where
  | varRef
  | symbol
  | literal
  | label
  | type
  deriving DecidableEq, Repr

/-- The word for what was asked for. -/
def Expected.word : Expected → String
  | .varRef => "variable"
  | .symbol => "symbol"
  | .literal => "literal"
  | .label => "label"
  | .type => "type"

/-- What can be wrong with a line. -/
inductive Problem where
  | missingHeader
  | misplacedHeader
  | unknownOpcode (word : String)
  | argumentCount (opcode : Opcode) (found : Nat)
  | argument (word : String) (expected : Expected)
  deriving DecidableEq, Repr

namespace Problem

/-- The wording of a problem. -/
def message : Problem → String
  | .missingHeader => "missing or malformed .IPPcode24 header"
  | .misplacedHeader => "unexpected .IPPcode24 header"
  | .unknownOpcode word => s!"unknown opcode '{word}'"
  | .argumentCount opcode found =>
    s!"{opcode.mnemonic} expects {opcode.arity} argument(s), found {found}"
  | .argument word expected => s!"expected {expected.word}, found '{word}'"

/-- The exit status for a problem: 21 for the header, 22 for an unknown
instruction, 23 for any other fault of a line. -/
def exitCode : Problem → Nat
  | .missingHeader => 21
  | .unknownOpcode _ => 22
  | .misplacedHeader | .argumentCount .. | .argument .. => 23

end Problem

/-- A fault of a source text. Lines are counted from one. -/
structure Error where
  line : Nat
  problem : Problem
  deriving DecidableEq, Repr

/-- The wording of a fault. -/
def Error.message (error : Error) : String := s!"line {error.line}: {error.problem.message}"

end Framecode.Source
