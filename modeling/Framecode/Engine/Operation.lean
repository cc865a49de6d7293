import Framecode.Engine.Fault

/-! Operations: instructions with their arguments in place. Instructions that
compute a value and store it differ only in the formula of that value. -/
namespace Framecode.Engine

/-- The operators on integers. -/
inductive Arithmetic where
  | add
  | sub
  | mul
  | idiv
  deriving DecidableEq, Repr

/-- The relations of values. -/
inductive Relation where
  | lt
  | gt
  | eq
  deriving DecidableEq, Repr

/-- The operators on two truth values. -/
inductive Connective where
  | and
  | or
  deriving DecidableEq, Repr

/-- How an instruction computes the value that it stores. -/
inductive Formula where
  | copy (source : Argument)
  | arithmetic (operator : Arithmetic) (left right : Argument)
  | relation (wanted : Relation) (left right : Argument)
  | connective (operator : Connective) (left right : Argument)
  | negation (source : Argument)
  | character (code : Argument)
  | codepoint (text index : Argument)
  | concat (left right : Argument)
  | length (text : Argument)
  | element (text index : Argument)
  | replace (text index replacement : Argument)
  | typeName (source : Argument)
  deriving DecidableEq, Repr

/-- What an instruction does. -/
inductive Operation where
  | store (target : Argument) (formula : Formula)
  | read (target type : Argument)
  | define (target : Argument)
  | createFrame
  | pushFrame
  | popFrame
  | push (source : Argument)
  | pop (target : Argument)
  | write (source : Argument)
  | label
  | jump (label : String)
  | branch (onEqual : Bool) (label : String) (left right : Argument)
  | call (label : String)
  | ret
  | exit (source : Argument)
  | dprint (shown : Argument)
  | breakpoint
  deriving DecidableEq, Repr

/-- The operation of an instruction. There is one whenever the number of arguments
is right. -/
def operation? (instr : Instruction) : Option Operation :=
  match instr.opcode, instr.args with
  | .createFrame, [] => some .createFrame
  | .pushFrame, [] => some .pushFrame
  | .popFrame, [] => some .popFrame
  | .ret, [] => some .ret
  | .breakpoint, [] => some .breakpoint
  | .defVar, [target] => some (.define target)
  | .pops, [target] => some (.pop target)
  | .pushs, [source] => some (.push source)
  | .write, [source] => some (.write source)
  | .exit, [source] => some (.exit source)
  | .dprint, [shown] => some (.dprint shown)
  | .call, [label] => some (.call label.text)
  | .label, [_] => some .label
  | .jump, [label] => some (.jump label.text)
  | .move, [target, source] => some (.store target (.copy source))
  | .not, [target, source] => some (.store target (.negation source))
  | .int2char, [target, code] => some (.store target (.character code))
  | .strlen, [target, text] => some (.store target (.length text))
  | .type, [target, source] => some (.store target (.typeName source))
  | .read, [target, type] => some (.read target type)
  | .add, [target, left, right] => some (.store target (.arithmetic .add left right))
  | .sub, [target, left, right] => some (.store target (.arithmetic .sub left right))
  | .mul, [target, left, right] => some (.store target (.arithmetic .mul left right))
  | .idiv, [target, left, right] => some (.store target (.arithmetic .idiv left right))
  | .lt, [target, left, right] => some (.store target (.relation .lt left right))
  | .gt, [target, left, right] => some (.store target (.relation .gt left right))
  | .eq, [target, left, right] => some (.store target (.relation .eq left right))
  | .and, [target, left, right] => some (.store target (.connective .and left right))
  | .or, [target, left, right] => some (.store target (.connective .or left right))
  | .stri2int, [target, text, index] => some (.store target (.codepoint text index))
  | .concat, [target, left, right] => some (.store target (.concat left right))
  | .getChar, [target, text, index] => some (.store target (.element text index))
  | .setChar, [target, index, text] => some (.store target (.replace target index text))
  | .jumpIfEq, [label, left, right] => some (.branch true label.text left right)
  | .jumpIfNeq, [label, left, right] => some (.branch false label.text left right)
  | _, _ => none

end Framecode.Engine
