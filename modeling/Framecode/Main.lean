import Framecode.Command.Execute

/-! The command line tool on the files of the system. -/
namespace Framecode

open Command (FileError Host)

/-- The file error that an error of the system amounts to. The number of an error
may come with a sign, which then wraps around. -/
def fileErrorOf : IO.Error → FileError
  | .noFileOrDirectory .. => .notFound
  | .inappropriateType _ code _ =>
    if code = 21 ∨ code = -21 then .isDirectory else .notDirectory
  | .invalidArgument _ code _ =>
    if code = 36 ∨ code = -36 then .nameTooLong else .nulInName
  | error => .other (toString error)

/-- All bytes of a stream up to its end. -/
partial def readToEnd (stream : IO.FS.Stream) (before : ByteArray) : IO ByteArray := do
  let bytes ← stream.read 65536
  if bytes.isEmpty then return before else readToEnd stream (before ++ bytes)

/-- The host that works on the files of the system. -/
def systemHost : Host IO where
  readFile path :=
    try return .ok (← IO.FS.readBinFile path).toList
    catch error => return .error (fileErrorOf error)
  writeFile path text :=
    try
      IO.FS.writeFile path text
      return .ok ()
    catch error => return .error (fileErrorOf error)
  readInput := do return (← readToEnd (← IO.getStdin) .empty).toList
  complaint _ := {}

/-- More steps than any run can take in a lifetime. -/
def lifetime : Nat := 4611686018427387904

end Framecode

/-- Run the tool. -/
def main (args : List String) : IO UInt32 := do
  match ← Framecode.Command.invoke Framecode.systemHost Framecode.lifetime args with
  | none => return 99
  | some report =>
    IO.print report.stdout
    IO.eprint report.stderr
    return UInt32.ofNat report.status
