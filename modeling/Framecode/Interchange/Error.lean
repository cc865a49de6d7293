import Framecode.Opcode

/-! Faults of program documents: the document is not well formed, or an element
on some line breaks the structure of programs. -/
namespace Framecode.Interchange

/-- What can be wrong with the structure of a document. -/
inductive Problem where
  | root
  | language
  | unexpectedAttribute (name element : String)
  | strayText (element : String)
  | unexpectedElement (name parent : String)
  | missingOrder
  | badOrder (text : String)
  | missingOpcode
  | unknownOpcode (text : String)
  | duplicate (name : String)
  | missingType
  | argumentType (text : String)
  | nestedElement
  | numbering (opcode : Opcode)
  | argumentCount (opcode : Opcode) (found : Nat)
  deriving DecidableEq, Repr

/-- The wording of a problem. -/
def Problem.message : Problem → String
  | .root => "root element must be 'program'"
  | .language => "program must have language=\"IPPcode24\""
  | .unexpectedAttribute name element => s!"unexpected attribute '{name}' on '{element}'"
  | .strayText element => s!"unexpected text in '{element}'"
  | .unexpectedElement name parent => s!"unexpected element '{name}' in {parent}"
  | .missingOrder => "instruction without 'order'"
  | .badOrder text => s!"invalid order '{text}'"
  | .missingOpcode => "instruction without 'opcode'"
  | .unknownOpcode text => s!"unknown opcode '{text}'"
  | .duplicate name => s!"duplicate {name}"
  | .missingType => "argument without 'type'"
  | .argumentType text => s!"unknown argument type '{text}'"
  | .nestedElement => "argument must hold text only"
  | .numbering opcode => s!"arguments of {opcode.mnemonic} are not numbered from arg1"
  | .argumentCount opcode found =>
    s!"{opcode.mnemonic} expects {opcode.arity} argument(s), found {found}"

/-- What the parser of documents says about a text that it rejects: the line that it points at,
and what is wrong there. A parser that knows no line points at the first one. -/
structure Complaint where
  line : Nat := 1
  text : String := "the document is not well formed"
  deriving DecidableEq, Repr

/-- A fault of a document. -/
inductive Error where
  | malformed
  | structural (line : Nat) (problem : Problem)
  deriving DecidableEq, Repr

namespace Error

/-- The wording of a fault. For a document that is not well formed it is the parser that says
where and why. -/
def message (error : Error) (complaint : Complaint := {}) : String :=
  match error with
  | .malformed => s!"line {complaint.line}: malformed XML: {complaint.text}"
  | .structural line problem => s!"line {line}: {problem.message}"

/-- The exit status for a fault: 31 for a document that is not well formed, 32
for one that is no program. -/
def exitCode : Error → Nat
  | .malformed => 31
  | .structural .. => 32

end Error

end Framecode.Interchange
