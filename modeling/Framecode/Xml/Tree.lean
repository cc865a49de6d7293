import Framecode.Xml.Namespace

/-! Documents as trees. Texts, references and character data sections that follow
each other directly are one text; comments and processing instructions separate
texts and count for nothing else.

Which texts are documents, and what they hold, is as the parser roxmltree 0.20 has it
with its default options. These are the facts of it that other parsers may not share:
comments and processing instructions are nodes between texts; one byte order mark at
the start is skipped; a document type declaration is refused, so that no entities are
known but the five predefined ones; the values in the XML declaration are not looked
at; a reference by number to a code point that no character has is the replacement
character; and where line ends are put into normal form, the plain character right
after a reference stays as it is. -/
namespace Framecode.Xml

/-- A node of a document. Elements and texts know the line they start on. -/
inductive Node where
  | element (line : Nat) (name : Name) (attributes : List Attribute) (children : List Node)
  | text (line : Nat) (content : String)
  | gap
  deriving Repr

/-- An element whose end has not been reached: its children so far are held with
the latest one first. -/
structure Unfinished where
  line : Nat
  name : Name
  attributes : List Attribute
  scope : Scope
  children : List Node

namespace Unfinished

/-- The element, once its end is reached. -/
def node (element : Unfinished) : Node :=
  .element element.line element.name element.attributes element.children.reverse

/-- Add a child. -/
def add (element : Unfinished) (child : Node) : Unfinished :=
  { element with children := child :: element.children }

/-- Add a text, which joins a text right before it. -/
def addText (element : Unfinished) (line : Nat) (content : String) : Unfinished :=
  match element.children with
  | .text start before :: rest =>
    { element with children := .text start (before ++ content) :: rest }
  | _ => element.add (.text line content)

end Unfinished

/-- A document that is being read: the unfinished elements, the innermost one
first, and the root element once it is finished. -/
structure Reading where
  path : List Unfinished := []
  root : Option Node := none

namespace Reading

/-- Put a finished node where it belongs: into the element around it, or as the
root, of which there is one. -/
def place? (reading : Reading) (node : Node) : Option Reading :=
  match reading.path, reading.root with
  | [], none => some { reading with root := some node }
  | [], some _ => none
  | element :: outer, _ => some { reading with path := element.add node :: outer }

/-- The scope at the current position. -/
def scope (reading : Reading) : Scope := (reading.path.head?.map Unfinished.scope).getD []

/-- Read a tag. An element starts inside the current one or is the only root; an
end belongs to the current element. -/
def readTag? (reading : Reading) (line : Nat) : Tag → Option Reading
  | .start name raw closed => do
    let attributes ← raw.mapM fun attr =>
      (attributeContent? attr.body).map (Attribute.mk attr.name ·)
    let (plain, scope) ← qualify? reading.scope name attributes
    let element : Unfinished := ⟨line, name, plain, scope, []⟩
    if closed then reading.place? element.node
    else if reading.path.isEmpty && reading.root.isSome then none
    else some { reading with path := element :: reading.path }
  | .finish name =>
    match reading.path with
    | [] => none
    | element :: outer =>
      if element.name = name then { reading with path := outer }.place? element.node else none

/-- Read a comment or a processing instruction, which may stand anywhere. -/
def readGap (reading : Reading) : Reading :=
  match reading.path with
  | [] => reading
  | element :: outer => { reading with path := element.add .gap :: outer }

/-- Read one chunk. Outside the root there is white space only. -/
def readChunk? (reading : Reading) (located : Located) : Option Reading :=
  match located.chunk with
  | .comment body => if isComment body then some reading.readGap else none
  | .processing body => if isProcessing body then some reading.readGap else none
  | .tag body => (tag? body).bind (reading.readTag? located.line)
  | .text body =>
    match reading.path with
    | [] => if body.all isSpace then some reading else none
    | element :: outer => (textContent? body).map fun content =>
        { reading with path := element.addText located.line content :: outer }
  | .cdata body =>
    match reading.path with
    | [] => none
    | element :: outer => (sectionContent? body).map fun content =>
        { reading with path := element.addText located.line content :: outer }

/-- Read chunks in order. -/
def readAll? (reading : Reading) : List Located → Option Reading
  | [] => some reading
  | located :: rest =>
    match reading.readChunk? located with
    | none => none
    | some next => next.readAll? rest

end Reading

/-- The root element of a document. There is none when the document is not well
formed. A byte order mark at the start does not count. -/
def document? (text : String) : Option Node := do
  let chars := text.toList
  let marked := (Text.after? ['\uFEFF'] chars).getD chars
  let content ← skipDeclaration? marked
  let declared := marked.take (marked.length - content.length)
  let located ← chunks? (1 + declared.count '\n') content
  let reading ← ({} : Reading).readAll? located
  if reading.path.isEmpty then reading.root else none

end Framecode.Xml
