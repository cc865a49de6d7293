import Framecode.Argument
import Framecode.Text.Ascii

/-! The instruction set: the mnemonic of every opcode, the shapes of its
operands and the family it belongs to. -/
namespace Framecode

/-- What an operand position takes. -/
inductive Shape where
  | var
  | symb
  | label
  | type
  deriving DecidableEq, Repr

namespace Shape

/-- Every shape. -/
def all : List Shape := [.var, .symb, .label, .type]

/-- Whether a position takes arguments of a kind. A symbol is a variable or a
literal. -/
def accepts : Shape → ArgKind → Bool
  | .var, .var => true
  | .symb, .var => true
  | .symb, .literal _ => true
  | .label, .label => true
  | .type, .typeName => true
  | _, _ => false

end Shape

/-- The instructions of the language. -/
inductive Opcode where
  | createFrame
  | pushFrame
  | popFrame
  | ret
  | breakpoint
  | defVar
  | pops
  | pushs
  | write
  | exit
  | dprint
  | call
  | label
  | jump
  | move
  | not
  | int2char
  | strlen
  | type
  | read
  | add
  | sub
  | mul
  | idiv
  | lt
  | gt
  | eq
  | and
  | or
  | stri2int
  | concat
  | getChar
  | setChar
  | jumpIfEq
  | jumpIfNeq
  deriving DecidableEq, Repr

/-- A group of instructions that do a similar job. -/
inductive Family where
  | arithmetic
  | relBoolConvert
  | controlFlow
  | memoryAndFrames
  | dataStack
  | string
  | inputOutput
  | debug
  deriving DecidableEq, Repr

namespace Opcode

/-- Every opcode. -/
def all : List Opcode :=
  [.createFrame, .pushFrame, .popFrame, .ret, .breakpoint, .defVar, .pops, .pushs, .write, .exit,
    .dprint, .call, .label, .jump, .move, .not, .int2char, .strlen, .type, .read, .add, .sub, .mul,
    .idiv, .lt, .gt, .eq, .and, .or, .stri2int, .concat, .getChar, .setChar, .jumpIfEq, .jumpIfNeq]

/-- The name of an instruction, in capitals. -/
def mnemonic : Opcode → String
  | .createFrame => "CREATEFRAME"
  | .pushFrame => "PUSHFRAME"
  | .popFrame => "POPFRAME"
  | .ret => "RETURN"
  | .breakpoint => "BREAK"
  | .defVar => "DEFVAR"
  | .pops => "POPS"
  | .pushs => "PUSHS"
  | .write => "WRITE"
  | .exit => "EXIT"
  | .dprint => "DPRINT"
  | .call => "CALL"
  | .label => "LABEL"
  | .jump => "JUMP"
  | .move => "MOVE"
  | .not => "NOT"
  | .int2char => "INT2CHAR"
  | .strlen => "STRLEN"
  | .type => "TYPE"
  | .read => "READ"
  | .add => "ADD"
  | .sub => "SUB"
  | .mul => "MUL"
  | .idiv => "IDIV"
  | .lt => "LT"
  | .gt => "GT"
  | .eq => "EQ"
  | .and => "AND"
  | .or => "OR"
  | .stri2int => "STRI2INT"
  | .concat => "CONCAT"
  | .getChar => "GETCHAR"
  | .setChar => "SETCHAR"
  | .jumpIfEq => "JUMPIFEQ"
  | .jumpIfNeq => "JUMPIFNEQ"

/-- The opcode with a given mnemonic, in any ASCII case. -/
def ofMnemonic? (text : String) : Option Opcode :=
  all.find? fun opcode => Text.sameWord opcode.mnemonic text

/-- The shapes of the operands, from left to right. -/
def operands : Opcode → List Shape
  | .createFrame | .pushFrame | .popFrame | .ret | .breakpoint => []
  | .defVar | .pops => [.var]
  | .pushs | .write | .exit | .dprint => [.symb]
  | .call | .label | .jump => [.label]
  | .move | .not | .int2char | .strlen | .type => [.var, .symb]
  | .read => [.var, .type]
  | .add | .sub | .mul | .idiv | .lt | .gt | .eq | .and | .or | .stri2int | .concat | .getChar
  | .setChar => [.var, .symb, .symb]
  | .jumpIfEq | .jumpIfNeq => [.label, .symb, .symb]

/-- The number of operands. -/
def arity (opcode : Opcode) : Nat := opcode.operands.length

/-- The family of an opcode. -/
def family : Opcode → Family
  | .add | .sub | .mul | .idiv => .arithmetic
  | .lt | .gt | .eq | .and | .or | .not | .int2char | .stri2int => .relBoolConvert
  | .label | .jump | .jumpIfEq | .jumpIfNeq | .exit => .controlFlow
  | .move | .createFrame | .pushFrame | .popFrame | .defVar | .call | .ret => .memoryAndFrames
  | .pushs | .pops => .dataStack
  | .concat | .strlen | .getChar | .setChar | .type => .string
  | .read | .write => .inputOutput
  | .dprint | .breakpoint => .debug

end Opcode

end Framecode
