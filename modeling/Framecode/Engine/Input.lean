import Framecode.Literal.Integer
import Framecode.Text.Ascii
import Framecode.Text.Blank
import Framecode.Value

/-! Input by lines. Every read takes one line, whatever type it asks for, and
gives nothing at the end of the input or when the line does not spell a value of
that type. -/
namespace Framecode.Engine

/-- The types that can be read. -/
inductive Readable where
  | int
  | bool
  | string
  deriving DecidableEq, Repr

/-- The readable type with a given name. Nil cannot be read. -/
def Readable.ofName? (text : String) : Option Readable :=
  match ValueType.ofName? text with
  | some .int => some .int
  | some .bool => some .bool
  | some .string => some .string
  | _ => none

/-- The bytes of the input that are not yet read. -/
structure Input where
  bytes : List UInt8 := []
  deriving DecidableEq, Repr

namespace Input

/-- The byte that ends a line. -/
def lineFeed : UInt8 := 10

/-- The byte that may stand before a line feed as part of the line end. -/
def carriageReturn : UInt8 := 13

/-- The bytes of the first line, without its line end, and the bytes after it. -/
def splitLine : List UInt8 → List UInt8 × Bool × List UInt8
  | [] => ([], false, [])
  | byte :: rest =>
    if byte = lineFeed then ([], true, rest)
    else
      let (line, ended, following) := splitLine rest
      (byte :: line, ended, following)

/-- A line without a carriage return at its end. -/
def dropReturn (line : List UInt8) : List UInt8 :=
  if line.getLast? = some carriageReturn then line.dropLast else line

/-- The text of the first line. A carriage return before the line feed belongs to
the line end; without a line feed it belongs to the line. There is no text at the
end of the input, or when the bytes are not UTF-8. -/
def line? (input : Input) : Option String :=
  if input.bytes.isEmpty then none
  else
    let (line, ended, _) := splitLine input.bytes
    String.fromUTF8? ⟨(if ended then dropReturn line else line).toArray⟩

/-- The input after its first line. -/
def rest (input : Input) : Input := ⟨(splitLine input.bytes).2.2⟩

/-- The truth value that a word spells, in any ASCII case. -/
def truth? (word : String) : Option Bool :=
  if Text.sameWord word "true" then some true
  else if Text.sameWord word "false" then some false
  else none

/-- The value of a given type that a line spells. Blanks around a number or a
truth value do not count. -/
def valueOf? (line : String) : Readable → Option Value
  | .int => (Integer.parse? (Text.trimmed line)).map .int
  | .bool => (truth? (Text.trimmed line)).map .bool
  | .string => some (.string line)

/-- The value of a given type on the first line. -/
def value? (input : Input) (type : Readable) : Option Value :=
  input.line?.bind (valueOf? · type)

end Input

end Framecode.Engine
