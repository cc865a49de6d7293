import Framecode.Xml.Chunk
import Framecode.Xml.Content

/-! Tags, and the other markup that is read by itself: the XML declaration,
comments and processing instructions. -/
namespace Framecode.Xml

/-- A name: an optional qualifier, which stands for a namespace, and a base. The
qualifier is empty when there is none. -/
structure Name where
  qualifier : String
  base : String
  deriving DecidableEq, Repr

/-- Whether the characters of a part of a name are in order at its start. -/
def startsWell (part : List Char) : Bool := part.head?.all startsName

/-- The name that a row of name characters spells: at most one colon divides the
qualifier from the base, and the base is not empty. -/
def nameOf? (spelled : List Char) : Option Name :=
  let parts := (Text.cutAt? ':' spelled).getD ([], spelled)
  if parts.2.contains ':' || parts.2.isEmpty then none
  else if startsWell parts.1 && startsWell parts.2 then
    some ⟨String.ofList parts.1, String.ofList parts.2⟩
  else none

/-- The name that a text starts with, and what follows it. -/
def name? (text : List Char) : Option (Name × List Char) :=
  (nameOf? (text.takeWhile continuesName)).map fun name => (name, text.dropWhile continuesName)

/-- A text without its leading white space. -/
def skipSpace (text : List Char) : List Char := text.dropWhile isSpace

/-- Whether a text starts with white space. -/
def startsWithSpace (text : List Char) : Bool := text.head?.any isSpace

/-- An attribute as it is written: its name and what stands between the quotes. -/
structure RawAttribute where
  name : Name
  body : List Char
  deriving DecidableEq, Repr

/-- The quoted value that a text starts with, and what follows it. -/
def quoted? : List Char → Option (List Char × List Char)
  | [] => none
  | quote :: rest => if isQuote quote then Text.cutAt? quote rest else none

/-- The attribute that a text starts with, and what follows it. White space may
surround the equals sign. -/
def attribute? (text : List Char) : Option (RawAttribute × List Char) := do
  let (name, afterName) ← name? text
  let afterSign ← Text.after? ['='] (skipSpace afterName)
  let (body, following) ← quoted? (skipSpace afterSign)
  if body.all fun c => isAllowed c && c != '<' then some (⟨name, body⟩, following) else none

/-- Skipping white space does not lengthen a text. -/
theorem length_skipSpace_le (text : List Char) : (skipSpace text).length ≤ text.length :=
  (List.dropWhile_suffix _).length_le

/-- What follows a name is no longer than the text that starts with it. -/
theorem length_le_of_name? {text following : List Char} {name : Name}
    (found : name? text = some (name, following)) : following.length ≤ text.length := by
  obtain ⟨_, _, same⟩ := Option.map_eq_some_iff.mp found
  obtain ⟨rfl, rfl⟩ := Prod.mk.injEq .. ▸ same
  exact (List.dropWhile_suffix _).length_le

/-- What follows a quoted value is shorter than the text that starts with it. -/
theorem length_lt_of_quoted? {text body following : List Char}
    (found : quoted? text = some (body, following)) : following.length < text.length := by
  cases text with
  | nil => simp [quoted?] at found
  | cons quote rest =>
    rw [quoted?] at found
    split at found
    · have := Text.length_lt_of_cutAt? found
      simp only [List.length_cons]
      omega
    · contradiction

/-- What follows an attribute is shorter than the text that starts with it. -/
theorem length_lt_of_attribute? {text following : List Char} {attr : RawAttribute}
    (found : attribute? text = some (attr, following)) : following.length < text.length := by
  simp only [attribute?, Option.bind_eq_bind, Option.bind_eq_some_iff, Prod.exists] at found
  obtain ⟨name, afterName, named, afterSign, signed, body, rest, valued, accepted⟩ := found
  split at accepted
  · simp only [Option.some.injEq, Prod.mk.injEq] at accepted
    obtain ⟨_, rfl⟩ := accepted
    have := length_le_of_name? named
    have := length_skipSpace_le afterName
    have := congrArg List.length (Text.after?_eq_some_iff.mp signed)
    have := length_skipSpace_le afterSign
    have := length_lt_of_quoted? valued
    simp only [List.length_append, List.length_cons, List.length_nil] at *
    omega
  · contradiction

/-- The attributes of an opening tag, and whether a slash closes the element at
once. White space must stand before each attribute. -/
def attributes? (text : List Char) : Option (List RawAttribute × Bool) :=
  match skipSpace text with
  | [] => some ([], false)
  | ['/'] => some ([], true)
  | _ =>
    if startsWithSpace text then
      match found : attribute? (skipSpace text) with
      | none => none
      | some (attr, following) =>
        have := Nat.lt_of_lt_of_le (length_lt_of_attribute? found) (length_skipSpace_le text)
        (attributes? following).map fun others => (attr :: others.1, others.2)
    else none
termination_by text.length
decreasing_by exact this

/-- A tag: the start of an element, perhaps its whole, or the end of one. -/
inductive Tag where
  | start (name : Name) (attributes : List RawAttribute) (closed : Bool)
  | finish (name : Name)
  deriving DecidableEq, Repr

/-- Read what stands between the brackets of a tag. -/
def tag? (body : List Char) : Option Tag :=
  match Text.after? ['/'] body with
  | some rest => do
    let (name, following) ← name? rest
    if (skipSpace following).isEmpty then some (.finish name) else none
  | none => do
    let (name, following) ← name? body
    let (attributes, closed) ← attributes? following
    some (.start name attributes closed)

/-- Whether a comment is in order: no two hyphens in a row, and none at the end. -/
def isComment (body : List Char) : Bool :=
  body.all isAllowed && (Text.cutAtAll? ['-', '-'] body).isNone && body.getLast? != some '-'

/-- Whether a processing instruction is in order. It starts with a name; the name
`xml` before a space belongs to the declaration, which stands elsewhere. -/
def isProcessing (body : List Char) : Bool :=
  body.all isAllowed && (body.head?.any startsName) &&
    (Text.after? ['x', 'm', 'l', ' '] body).isNone

/-- White space, unless the text is at the end of a declaration. -/
def declarationSpace? (text : List Char) : Option (List Char) :=
  if startsWithSpace text || text.isEmpty || (Text.after? ['?', '>'] text).isSome then
    some (skipSpace text)
  else none

/-- An attribute of the declaration, which has to start with the given letters,
and the white space after it. -/
def declared? (letters text : List Char) : Option (List Char) := do
  let _ ← Text.after? letters text
  let (_, following) ← attribute? text
  return following

/-- What follows the XML declaration that a text starts with: a version, then
perhaps an encoding, then perhaps a word on standing alone. The values are not
looked at. A text that starts with no declaration is left as it is. -/
def skipDeclaration? (text : List Char) : Option (List Char) :=
  match Text.after? ['<', '?', 'x', 'm', 'l', ' '] text with
  | none => some text
  | some rest => do
    let versioned ← declared? ['v', 'e', 'r', 's', 'i', 'o', 'n'] (skipSpace rest)
    let encodingOn ← declarationSpace? versioned
    let standaloneOn ←
      match declared? ['e', 'n', 'c', 'o', 'd', 'i', 'n', 'g'] encodingOn with
      | some following => declarationSpace? following
      | none => some encodingOn
    let last :=
      (declared? ['s', 't', 'a', 'n', 'd', 'a', 'l', 'o', 'n', 'e'] standaloneOn).getD standaloneOn
    Text.after? ['?', '>'] (skipSpace last)

end Framecode.Xml
