import Framecode.Source.Error
import Framecode.Text.Letter
import Framecode.Text.Cut

/-! The grammar of operands: which words a position of a given shape takes, and
the argument that such a word spells. -/
namespace Framecode.Source

/-- The characters of identifiers that are neither letters nor numerals. -/
def nameMarks : List Char := ['_', '-', '$', '&', '%', '*', '!', '?']

/-- Whether an identifier may start with a character. -/
def startsName (c : Char) : Bool := Text.isLetter c || nameMarks.contains c

/-- Whether a character may stand in an identifier after the first one. -/
def continuesName (c : Char) : Bool :=
  Text.isLetter c || Text.isNumeral c || nameMarks.contains c

/-- Whether a word is an identifier. -/
def isIdentifier : List Char → Bool
  | [] => false
  | c :: rest => startsName c && rest.all continuesName

/-- Whether a word spells a variable: a frame, an at sign and an identifier. -/
def isVariable (word : String) : Bool :=
  match Text.cutAt? '@' word.toList with
  | some (mark, name) => (FrameRole.ofMark? (String.ofList mark)).isSome && isIdentifier name
  | none => false

/-- Read a literal: the name of its type, an at sign and its text. -/
def readLiteral (word : String) : Except Expected Argument :=
  match Text.cutAt? '@' word.toList with
  | none => .error .symbol
  | some (kind, text) =>
    match ValueType.ofName? (String.ofList kind) with
    | none => .error .symbol
    | some type =>
      match Argument.decode type (String.ofList text) with
      | .ok _ => .ok ⟨.literal type, String.ofList text⟩
      | .error _ => .error .literal

/-- Read the word at a position of a given shape. -/
def readOperand (shape : Shape) (word : String) : Except Expected Argument :=
  match shape with
  | .var => if isVariable word then .ok ⟨.var, word⟩ else .error .varRef
  | .symb => if isVariable word then .ok ⟨.var, word⟩ else readLiteral word
  | .label => if isIdentifier word.toList then .ok ⟨.label, word⟩ else .error .label
  | .type => if (ValueType.ofName? word).isSome then .ok ⟨.typeName, word⟩ else .error .type

/-- Read words at positions of given shapes, from left to right. -/
def readOperands : List Shape → List String → Except Problem (List Argument)
  | shape :: shapes, word :: words =>
    match readOperand shape word with
    | .error expected => .error (.argument word expected)
    | .ok arg =>
      match readOperands shapes words with
      | .error problem => .error problem
      | .ok args => .ok (arg :: args)
  | _, _ => .ok []

end Framecode.Source
