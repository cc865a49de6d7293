import Framecode.Interchange.Error

/-! What commands need from their surroundings: files, the standard input, and what the parser of
documents has to say. -/
namespace Framecode.Command

/-- Why a file cannot be read or written. -/
inductive FileError where
  | notFound
  | notDirectory
  | isDirectory
  | nameTooLong
  | nulInName
  | notText
  | other (text : String)
  deriving DecidableEq, Repr

/-- The wording of a file error. -/
def FileError.message : FileError → String
  | .notFound => "No such file or directory (os error 2)"
  | .notDirectory => "Not a directory (os error 20)"
  | .isDirectory => "Is a directory (os error 21)"
  | .nameTooLong => "File name too long (os error 36)"
  | .nulInName => "file name contained an unexpected NUL byte"
  | .notText => "stream did not contain valid UTF-8"
  | .other text => text

/-- Access to files by path and to the standard input, and the parser's words for a text that is
no document. -/
structure Host (m : Type → Type) where
  /-- The content of a file. -/
  readFile : String → m (Except FileError (List UInt8))
  /-- Replace the whole content of a file, or make a new one. -/
  writeFile : String → String → m (Except FileError Unit)
  /-- The standard input, up to its end. -/
  readInput : m (List UInt8)
  /-- What the parser says about a text that it rejects. -/
  complaint : String → Interchange.Complaint

end Framecode.Command
