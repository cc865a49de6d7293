import Framecode.Interchange.Error
import Framecode.Program
import Framecode.Text.Blank
import Framecode.Xml.Tree

/-! Programs from XML documents. Elements and the attributes they may have go by
their base names, whatever the qualifier, while the value of an attribute is
taken from the one without a qualifier. -/
namespace Framecode.Interchange

/-- An element of a document. -/
structure Element where
  line : Nat
  name : String
  attributes : List Xml.Attribute
  children : List Xml.Node

namespace Element

/-- The element at a node. -/
def ofNode? : Xml.Node → Option Element
  | .element line name attributes children => some ⟨line, name.base, attributes, children⟩
  | _ => none

/-- A fault at an element. -/
def fault (element : Element) (problem : Problem) : Error := .structural element.line problem

/-- The value of the attribute of a given name that has no qualifier. -/
def attribute? (element : Element) (name : String) : Option String :=
  (element.attributes.find? (·.name == ⟨"", name⟩)).map Xml.Attribute.value

/-- Check that an element has attributes of the given names only. -/
def checkAttributes (element : Element) (allowed : List String) : Except Error Unit :=
  match element.attributes.find? fun attr => !allowed.contains attr.name.base with
  | some attr => .error (element.fault (.unexpectedAttribute attr.name.base element.name))
  | none => .ok ()

/-- The element children among nodes of an element with a given name. Every text
among them has to be blank. -/
def elementsAmong (parent : String) : List Xml.Node → Except Error (List Element)
  | [] => .ok []
  | .text line content :: rest =>
    if Text.isBlankText content then elementsAmong parent rest
    else .error (.structural line (.strayText parent))
  | .gap :: rest => elementsAmong parent rest
  | .element line name attributes children :: rest =>
    (elementsAmong parent rest).map (⟨line, name.base, attributes, children⟩ :: ·)

/-- The element children, none of them with a text around that is not blank. -/
def elements (element : Element) : Except Error (List Element) :=
  elementsAmong element.name element.children

/-- The first element child. -/
def firstElement? (element : Element) : Option Element := element.children.findSome? ofNode?

/-- The text that an element starts with. What follows a comment or a processing
instruction is not part of it. -/
def leadingText (element : Element) : String :=
  match element.children with
  | .text _ content :: _ => content
  | _ => ""

end Element

/-- Read an argument: a kind and a text, which counts without surrounding blanks. -/
def readArgument (element : Element) : Except Error Argument := do
  element.checkAttributes ["type"]
  match element.attribute? "type" with
  | none => throw (element.fault .missingType)
  | some kindText =>
    match ArgKind.ofName? (Text.trimmed kindText) with
    | none => throw (element.fault (.argumentType kindText))
    | some kind =>
      match element.firstElement? with
      | some child => throw (child.fault .nestedElement)
      | none => return ⟨kind, Text.trimmed element.leadingText⟩

/-- The most arguments that an instruction can have. -/
def maxArguments : Nat := 3

/-- The number of an argument element, from one to `maxArguments`: leading zeros
do not count. -/
def argumentNumber? (name : String) : Option Nat := do
  let digits ← Text.after? ['a', 'r', 'g'] name.toList
  let number ← Integer.natural? digits
  if 1 ≤ number ∧ number ≤ maxArguments then some number else none

/-- Arguments by number, the latest one first. -/
abbrev Numbered := List (Nat × Argument)

/-- Read argument elements, in any order but with no number twice. -/
def readArguments (found : Numbered) : List Element → Except Error Numbered
  | [] => .ok found
  | element :: rest =>
    match argumentNumber? element.name with
    | none => .error (element.fault (.unexpectedElement element.name "instruction"))
    | some number =>
      if (found.lookup number).isSome then .error (element.fault (.duplicate element.name))
      else
        match readArgument element with
        | .error error => .error error
        | .ok arg => readArguments ((number, arg) :: found) rest

/-- The arguments numbered from one on, as many as there are in all. There is no
result when a number is left out. -/
def inOrder? (found : Numbered) : Option (List Argument) :=
  (List.range' 1 found.length).mapM fun number => found.lookup number

/-- Read the order of an instruction: a number of 32 bits, surrounding blanks
aside. -/
def readOrder? (text : String) : Option UInt32 := do
  let number ← Integer.natural? (Text.trim text.toList)
  if number < UInt32.size then some (UInt32.ofNat number) else none

/-- Read an instruction. -/
def readInstruction (element : Element) : Except Error Instruction := do
  element.checkAttributes ["order", "opcode"]
  let some orderText := element.attribute? "order" | throw (element.fault .missingOrder)
  let some order := readOrder? orderText | throw (element.fault (.badOrder orderText))
  let some opcodeText := element.attribute? "opcode" | throw (element.fault .missingOpcode)
  let some opcode := Opcode.ofMnemonic? (Text.trimmed opcodeText)
    | throw (element.fault (.unknownOpcode opcodeText))
  let children ← element.elements
  let found ← readArguments [] children
  let some args := inOrder? found | throw (element.fault (.numbering opcode))
  if args.length = opcode.arity then return ⟨order, opcode, args⟩
  else throw (element.fault (.argumentCount opcode args.length))

/-- Read the elements of a program. -/
def readInstructions : List Element → Except Error (List Instruction)
  | [] => .ok []
  | element :: rest =>
    if element.name = "instruction" then
      match readInstruction element with
      | .error error => .error error
      | .ok instr => (readInstructions rest).map (instr :: ·)
    else .error (element.fault (.unexpectedElement element.name "program"))

/-- Read a program from the root element of a document. -/
def readRoot (root : Element) : Except Error Program := do
  if root.name ≠ "program" then throw (root.fault .root)
  if root.attribute? "language" ≠ some "IPPcode24" then throw (root.fault .language)
  root.checkAttributes ["language", "name", "description"]
  let children ← root.elements
  let instructions ← readInstructions children
  return ⟨instructions⟩

/-- Read a program from a document. The instructions stay as the document has
them. -/
def read (text : String) : Except Error Program :=
  match (Xml.document? text).bind Element.ofNode? with
  | none => .error .malformed
  | some root => readRoot root

end Framecode.Interchange
