import Framecode.Command.Path

/-! A set of files held in memory: the content of a directory that holds no other
directories. Of the world around it nothing is known but that it is made of
directories. -/
namespace Framecode.Command

/-- The files of a directory that holds no directories. -/
structure Workspace where
  files : List (String × List UInt8) := []
  deriving DecidableEq, Repr

/-- Where one can be on the way along a path: in the directory of the workspace, or
in one around it. -/
inductive Directory where
  | inside
  | outside
  deriving DecidableEq, Repr

/-- What the part of a path names. -/
inductive Entry where
  | directory (directory : Directory)
  | file (content : List UInt8)
  | absent
  deriving DecidableEq, Repr

namespace Workspace

/-- The bytes of a text in UTF-8. -/
def bytesOf (text : String) : List UInt8 := text.toUTF8.toList

/-- What a part of a path names, seen from a directory: a dot stands for that
directory and two dots for the one around it. -/
def entry (workspace : Workspace) (directory : Directory) (part : String) :
    Except FileError Entry :=
  if part = "." then .ok (.directory directory)
  else if part = ".." then .ok (.directory .outside)
  else if Path.maxPartBytes < part.utf8ByteSize then .error .nameTooLong
  else match directory with
    | .outside => .ok .absent
    | .inside =>
      match workspace.files.lookup part with
      | some content => .ok (.file content)
      | none => .ok .absent

/-- The directory that the parts before the last one of a path lead to, and the last
part. There is no last part when there are no parts at all. -/
def walk (workspace : Workspace) (directory : Directory) :
    List String → Except FileError (Directory × Option String)
  | [] => .ok (directory, none)
  | [last] => .ok (directory, some last)
  | part :: next :: rest => do
    match ← workspace.entry directory part with
    | .directory directory => workspace.walk directory (next :: rest)
    | .file _ => throw .notDirectory
    | .absent => throw .notFound

/-- The directory that holds what a path names, and the name there. -/
def locate (workspace : Workspace) (path : Path) : Except FileError (Directory × Option String) :=
  workspace.walk (if path.absolute then .outside else .inside) path.parts

/-- The content of a file. A path that ends in a slash names no file. -/
def read (workspace : Workspace) (text : String) : Except FileError (List UInt8) := do
  let path ← Path.parse text
  let (directory, last) ← workspace.locate path
  match last with
  | none => throw .isDirectory
  | some part =>
    match ← workspace.entry directory part with
    | .directory _ => throw .isDirectory
    | .absent => throw .notFound
    | .file content => if path.closed then throw .notDirectory else return content

/-- Set the content of the file with a name. -/
def put (files : List (String × List UInt8)) (name : String) (content : List UInt8) :
    List (String × List UInt8) :=
  match files with
  | [] => [(name, content)]
  | file :: rest =>
    if file.1 = name then (name, content) :: rest else file :: put rest name content

/-- The workspace with the content of a file replaced. A path that ends in a slash
is taken for a directory, whether or not there is one, and no file can be made
outside. -/
def write (workspace : Workspace) (text content : String) : Except FileError Workspace := do
  let path ← Path.parse text
  let (directory, last) ← workspace.locate path
  match last with
  | none => throw .isDirectory
  | some part =>
    if path.closed then throw .isDirectory
    match ← workspace.entry directory part, directory with
    | .directory _, _ => throw .isDirectory
    | _, .outside => throw .notFound
    | _, .inside => return ⟨put workspace.files part (bytesOf content)⟩

/-- The files that are new or have another content than before. -/
def changesSince (workspace before : Workspace) : List (String × List UInt8) :=
  workspace.files.filter fun file => before.files.lookup file.1 ≠ some file.2

/-- The host that works on a workspace, with a given standard input. -/
def host (input : List UInt8) : Host (StateM Workspace) where
  readFile path := do return (← get).read path
  writeFile path text := do
    match (← get).write path text with
    | .ok workspace =>
      set workspace
      return .ok ()
    | .error error => return .error error
  readInput := return input
  complaint _ := {}

end Workspace

end Framecode.Command
