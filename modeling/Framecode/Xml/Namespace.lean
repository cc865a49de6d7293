import Framecode.Xml.Tag

/-! Namespaces: a qualifier must be declared on its element or around it, and no
element has two attributes of one name in one namespace. -/
namespace Framecode.Xml

/-- The namespace that the qualifier `xml` stands for on every attribute. -/
def xmlSpace : String := "http://www.w3.org/XML/1998/namespace"

/-- The namespace of namespace declarations, which nothing may be bound to. -/
def xmlnsSpace : String := "http://www.w3.org/2000/xmlns/"

/-- An attribute and its value. -/
structure Attribute where
  name : Name
  value : String
  deriving DecidableEq, Repr

/-- The qualifiers in scope and what they stand for, the nearest declaration
first. -/
abbrev Scope := List (String × String)

/-- An attribute read as part of an element: a declaration of a qualifier, a
declaration of the default namespace, or a plain attribute. -/
inductive Role where
  | qualifier (name : String)
  | default
  | plain
  deriving DecidableEq, Repr

/-- The role that an attribute has by its name. -/
def roleOf (name : Name) : Role :=
  if name.qualifier = "xmlns" then .qualifier name.base
  else if name.base = "xmlns" then .default
  else .plain

/-- Whether a qualifier may be declared to stand for a namespace: `xml` and its
namespace belong to each other alone. -/
def mayDeclare (name value : String) : Bool :=
  value != xmlnsSpace && ((name == "xml") == (value == xmlSpace))

/-- The declarations that attributes of one element make. A qualifier is declared
once at most; declaring `xml` adds nothing, since attributes may use it anyway and
elements never. -/
def declarations? : List Attribute → Option Scope
  | [] => some []
  | attr :: rest => do
    let later ← declarations? rest
    match roleOf attr.name with
    | .plain => some later
    | .default =>
      if attr.value != xmlSpace && attr.value != xmlnsSpace then some later else none
    | .qualifier name =>
      if !mayDeclare name attr.value || (later.lookup name).isSome then none
      else if name = "xml" then some later
      else some ((name, attr.value) :: later)

/-- The namespace that the qualifier of an attribute stands for in a scope. -/
def lookup? (scope : Scope) (qualifier : String) : Option String :=
  if qualifier = "xml" then some xmlSpace else scope.lookup qualifier

/-- The namespace of an attribute: none of its own without a qualifier. There is
no result when the qualifier is not in scope. -/
def spaceOf? (scope : Scope) (name : Name) : Option (Option String) :=
  if name.qualifier = "" then some none else (lookup? scope name.qualifier).map some

/-- Whether the qualifiers of attributes are in scope, and no two attributes have
one name in one namespace. `seen` holds the names of earlier ones. -/
def distinctIn (scope : Scope) (seen : List (Option String × String)) : List Attribute → Bool
  | [] => true
  | attr :: rest =>
    match spaceOf? scope attr.name with
    | none => false
    | some space =>
      let key := (space, attr.name.base)
      !seen.contains key && distinctIn scope (key :: seen) rest

/-- Whether the name of an element is in order in a scope: its qualifier, if it has
one, has to be declared. Neither `xmlns` nor `xml` can be. -/
def elementInScope (scope : Scope) (name : Name) : Bool :=
  name.qualifier != "xmlns" &&
    (name.qualifier == "" || (scope.lookup name.qualifier).isSome)

/-- The plain attributes of an element and the scope inside it, given the scope
around it. -/
def qualify? (outer : Scope) (name : Name) (attributes : List Attribute) :
    Option (List Attribute × Scope) := do
  let declared ← declarations? attributes
  let scope := declared ++ outer
  let plain := attributes.filter fun attr => roleOf attr.name == .plain
  if elementInScope scope name && distinctIn scope [] plain then some (plain, scope) else none

end Framecode.Xml
