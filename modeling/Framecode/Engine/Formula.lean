import Framecode.Engine.Frames
import Framecode.Engine.Operation

/-! The values of arguments and formulas in given frames. Operands are looked at
from left to right, and the first one that has no proper value is the fault. -/
namespace Framecode.Engine

namespace Frames

/-- The variable that an argument names. -/
def variableOf (arg : Argument) : Except Cause VarRef :=
  match arg.varRef with
  | .ok var => .ok var
  | .error error => .error (.malformedArgument error)

/-- What an argument holds: the slot of a variable, or the value of a literal. -/
def slotOf (frames : Frames) (arg : Argument) : Except Cause Slot :=
  if arg.kind = .var then do
    let var ← variableOf arg
    frames.contents var
  else
    match arg.literal with
    | .ok value => .ok value
    | .error error => .error (.malformedArgument error)

/-- The value of an argument. -/
def valueOf (frames : Frames) (arg : Argument) : Except Cause Value := do
  match ← frames.slotOf arg with
  | some value => return value
  | none => throw (.unassignedVariable arg.text)

/-- The value of an argument that has to be an integer. -/
def intOf (frames : Frames) (arg : Argument) : Except Cause Int64 := do
  match ← frames.valueOf arg with
  | .int number => return number
  | other => throw (.typeMismatch .int other.type)

/-- The value of an argument that has to be a truth value. -/
def boolOf (frames : Frames) (arg : Argument) : Except Cause Bool := do
  match ← frames.valueOf arg with
  | .bool truth => return truth
  | other => throw (.typeMismatch .bool other.type)

/-- The value of an argument that has to be a text. -/
def textOf (frames : Frames) (arg : Argument) : Except Cause String := do
  match ← frames.valueOf arg with
  | .string text => return text
  | other => throw (.typeMismatch .string other.type)

end Frames

/-- The result of an operator on integers, modulo the 64 bits of the machine. A
quotient is rounded toward zero. -/
def Arithmetic.apply (operator : Arithmetic) (left right : Int64) : Except Cause Int64 :=
  match operator with
  | .add => .ok (left + right)
  | .sub => .ok (left - right)
  | .mul => .ok (left * right)
  | .idiv => if right = 0 then .error .divisionByZero else .ok (left / right)

/-- The fault of comparing values that cannot be compared. -/
def incomparable (left right : Value) : Cause := .incompatibleTypes left.type right.type

/-- The equality of two values. -/
def equality (left right : Value) : Except Cause Bool :=
  match left.equal? right with
  | some equal => .ok equal
  | none => .error (incomparable left right)

/-- Whether two values are in a given order. -/
def inOrder (wanted : Ordering) (left right : Value) : Except Cause Bool :=
  match left.order? right with
  | some order => .ok (order == wanted)
  | none => .error (incomparable left right)

/-- Whether a relation holds of two values. -/
def Relation.holds (relation : Relation) (left right : Value) : Except Cause Bool :=
  match relation with
  | .lt => inOrder .lt left right
  | .gt => inOrder .gt left right
  | .eq => equality left right

/-- The result of an operator on truth values. -/
def Connective.apply (operator : Connective) (left right : Bool) : Bool :=
  match operator with
  | .and => left && right
  | .or => left || right

/-- The character with a given code point. -/
def characterOf (code : Int64) : Except Cause Char :=
  if 0 ≤ code.toInt ∧ code.toInt.toNat.isValidChar then .ok (Char.ofNat code.toInt.toNat)
  else .error (.codepointOutOfRange code)

/-- The number of characters in a text, or the highest integer if there are more. -/
def lengthOf (text : String) : Int64 := (Integer.narrow? text.length).getD Int64.maxValue

/-- The character at an index of a text, counted from zero. -/
def characterAt (text : String) (index : Int64) : Except Cause Char :=
  let fault : Cause := .indexOutOfRange index text.length
  if 0 ≤ index.toInt then
    match text.toList[index.toInt.toNat]? with
    | some c => .ok c
    | none => .error fault
  else .error fault

/-- A text with the character at an index replaced by the first one of another
text, which may not be empty. -/
def replaceAt (text : String) (index : Int64) (replacement : String) : Except Cause String :=
  match replacement.toList with
  | [] => .error .emptyReplacement
  | c :: _ => do
    let _ ← characterAt text index
    return String.ofList (text.toList.set index.toInt.toNat c)

/-- The name of the type of a slot; empty for a variable without a value. -/
def typeNameOf (slot : Slot) : String :=
  match slot with
  | some value => value.type.name
  | none => ""

/-- The value of a formula. -/
def Formula.value (frames : Frames) : Formula → Except Cause Value
  | .copy source => frames.valueOf source
  | .arithmetic operator left right => do
    let left ← frames.intOf left
    let right ← frames.intOf right
    return .int (← operator.apply left right)
  | .relation wanted left right => do
    let left ← frames.valueOf left
    let right ← frames.valueOf right
    return .bool (← wanted.holds left right)
  | .connective operator left right => do
    let left ← frames.boolOf left
    let right ← frames.boolOf right
    return .bool (operator.apply left right)
  | .negation source => do
    return .bool !(← frames.boolOf source)
  | .character code => do
    let code ← frames.intOf code
    return .string (String.singleton (← characterOf code))
  | .codepoint text index => do
    let text ← frames.textOf text
    let index ← frames.intOf index
    return .int (Int64.ofNat (← characterAt text index).toNat)
  | .concat left right => do
    let left ← frames.textOf left
    let right ← frames.textOf right
    return .string (left ++ right)
  | .length text => do
    return .int (lengthOf (← frames.textOf text))
  | .element text index => do
    let text ← frames.textOf text
    let index ← frames.intOf index
    return .string (String.singleton (← characterAt text index))
  | .replace text index replacement => do
    let text ← frames.textOf text
    let index ← frames.intOf index
    let replacement ← frames.textOf replacement
    return .string (← replaceAt text index replacement)
  | .typeName source => do
    return .string (typeNameOf (← frames.slotOf source))

end Framecode.Engine
