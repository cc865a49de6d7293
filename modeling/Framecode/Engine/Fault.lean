import Framecode.Program

/-! Faults of loading and running a program: what went wrong, and at which
instruction. Every cause belongs to one kind, and the kind decides the exit
status. -/
namespace Framecode.Engine

/-- What can go wrong at an instruction. -/
inductive Cause where
  | malformedArgument (error : DecodeError)
  | malformedInstruction (opcode : Opcode)
  | invalidOrder
  | unsupportedReadType (word : String)
  | duplicateLabel (label : String)
  | undefinedLabel (label : String)
  | redeclaration (var : VarRef)
  | typeMismatch (expected found : ValueType)
  | incompatibleTypes (left right : ValueType)
  | undefinedVariable (var : VarRef)
  | missingFrame (role : FrameRole)
  | unassignedVariable (text : String)
  | returnWithoutCall
  | dataStackEmpty
  | divisionByZero
  | exitCodeOutOfRange (code : Int64)
  | codepointOutOfRange (code : Int64)
  | indexOutOfRange (index : Int64) (length : Nat)
  | emptyReplacement
  | output (reason : String)
  deriving DecidableEq, Repr

/-- The kinds of causes. -/
inductive Kind where
  | invalidSourceStructure
  | semantic
  | operandType
  | variableAccess
  | frameAccess
  | value
  | operandValue
  | stringOperation
  | internal
  deriving DecidableEq, Repr

/-- The exit status for a kind. -/
def Kind.exitCode : Kind → Nat
  | .invalidSourceStructure => 32
  | .semantic => 52
  | .operandType => 53
  | .variableAccess => 54
  | .frameAccess => 55
  | .value => 56
  | .operandValue => 57
  | .stringOperation => 58
  | .internal => 99

/-- The kind of a cause. -/
def Cause.kind : Cause → Kind
  | .malformedArgument _ | .malformedInstruction _ | .invalidOrder | .unsupportedReadType _ =>
    .invalidSourceStructure
  | .duplicateLabel _ | .undefinedLabel _ | .redeclaration _ => .semantic
  | .typeMismatch .. | .incompatibleTypes .. => .operandType
  | .undefinedVariable _ => .variableAccess
  | .missingFrame _ => .frameAccess
  | .unassignedVariable _ | .returnWithoutCall | .dataStackEmpty => .value
  | .divisionByZero | .exitCodeOutOfRange _ | .codepointOutOfRange _ => .operandValue
  | .indexOutOfRange .. | .emptyReplacement => .stringOperation
  | .output _ => .internal

/-- The wording of a cause at the instruction of a given order. -/
def Cause.message (order : Nat) : Cause → String
  | .malformedArgument error => s!"malformed argument at instruction {order}: {error.message}"
  | .malformedInstruction opcode =>
    s!"{opcode.mnemonic} at instruction {order} has malformed arguments"
  | .invalidOrder => s!"invalid instruction order {order}"
  | .unsupportedReadType word => s!"unsupported READ type '{word}' at instruction {order}"
  | .duplicateLabel label => s!"label '{label}' redefined at instruction {order}"
  | .undefinedLabel label => s!"undefined label '{label}' at instruction {order}"
  | .redeclaration var => s!"variable {var.display} redeclared at instruction {order}"
  | .typeMismatch expected found =>
    s!"expected {expected.name}, found {found.name} at instruction {order}"
  | .incompatibleTypes left right =>
    s!"cannot compare {left.name} with {right.name} at instruction {order}"
  | .undefinedVariable var => s!"undefined variable {var.display} at instruction {order}"
  | .missingFrame role => s!"frame {role.mark} does not exist at instruction {order}"
  | .unassignedVariable text => s!"variable {text} read before assignment at instruction {order}"
  | .returnWithoutCall => s!"RETURN without CALL at instruction {order}"
  | .dataStackEmpty => s!"POPS on empty data stack at instruction {order}"
  | .divisionByZero => s!"division by zero at instruction {order}"
  | .exitCodeOutOfRange code =>
    s!"exit status {code.toInt} out of range 0-9 at instruction {order}"
  | .codepointOutOfRange code => s!"codepoint {code.toInt} out of range at instruction {order}"
  | .indexOutOfRange index length =>
    s!"index {index.toInt} out of range (length {length}) at instruction {order}"
  | .emptyReplacement => s!"empty replacement string at instruction {order}"
  | .output reason => s!"output failed at instruction {order}: {reason}"

/-- A cause at the instruction of a given order. -/
structure Fault where
  order : UInt32
  cause : Cause
  deriving DecidableEq, Repr

namespace Fault

/-- The wording of a fault. -/
def message (fault : Fault) : String := fault.cause.message fault.order.toNat

/-- The exit status for a fault. -/
def exitCode (fault : Fault) : Nat := fault.cause.kind.exitCode

end Fault

end Framecode.Engine
