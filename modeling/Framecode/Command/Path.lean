import Framecode.Command.Host
import Framecode.Text.Blank

/-! Paths as rows of parts. A path is fit to be followed when it is not empty, not
too long and holds no NUL; slashes divide its parts, and several count as one. -/
namespace Framecode.Command

/-- A path cut into its parts. -/
structure Path where
  /-- Whether the path starts at the root. -/
  absolute : Bool
  /-- The parts, of which none is empty. -/
  parts : List String
  /-- Whether a slash ends the path, so that it can only name a directory. -/
  closed : Bool
  deriving DecidableEq, Repr

namespace Path

/-- The most bytes that a path may have. -/
def maxBytes : Nat := 4095

/-- The most bytes that a part of a path may have. -/
def maxPartBytes : Nat := 255

/-- The parts between the slashes of a text. -/
def partsOf (text : List Char) : List String :=
  ((Text.splitWhere (· == '/') text).filter (· ≠ [])).map String.ofList

/-- Read a path. -/
def parse (text : String) : Except FileError Path :=
  let chars := text.toList
  if chars.contains '\x00' then .error .nulInName
  else if chars = [] then .error .notFound
  else if maxBytes < text.utf8ByteSize then .error .nameTooLong
  else .ok ⟨chars.head? == some '/', partsOf chars, chars.getLast? == some '/'⟩

end Path

end Framecode.Command
