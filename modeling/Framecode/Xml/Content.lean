import Framecode.Literal.Integer
import Framecode.Text.Cut
import Framecode.Xml.Character

/-! Character content: references are replaced by the characters they stand for,
and line ends and white space take their normal form. -/
namespace Framecode.Xml

/-- A character of a text, written as itself or as a reference. -/
inductive Piece where
  | plain (c : Char)
  | referenced (c : Char)
  deriving DecidableEq, Repr

/-- The character with a code point, and the replacement character for a number
that is no code point of a character. -/
def characterOrReplacement (code : Nat) : Char :=
  if code.isValidChar then Char.ofNat code else '\uFFFD'

/-- The character that a reference by number stands for. The number must fit into
32 bits, and the character must be one that documents may hold. -/
def numbered? (radix : Nat) (digits : List Char) : Option Char := do
  let code ← Integer.ofDigits? radix digits
  let c := characterOrReplacement code
  if code < UInt32.size && isAllowed c then some c else none

/-- The character that a reference stands for, given what stands between its
ampersand and its semicolon. -/
def reference? : List Char → Option Char
  | ['a', 'm', 'p'] => some '&'
  | ['l', 't'] => some '<'
  | ['g', 't'] => some '>'
  | ['q', 'u', 'o', 't'] => some '"'
  | ['a', 'p', 'o', 's'] => some '\x27'
  | '#' :: 'x' :: digits => numbered? 16 digits
  | '#' :: digits => numbered? 10 digits
  | _ => none

/-- Split off a reference at every ampersand. -/
def pieces? (text : List Char) : Option (List Piece) :=
  match text with
  | [] => some []
  | c :: rest =>
    if c = '&' then
      match found : Text.cutAt? ';' rest with
      | none => none
      | some (name, following) =>
        match reference? name with
        | none => none
        | some named =>
          have := Text.length_lt_of_cutAt? found
          (pieces? following).map (.referenced named :: ·)
    else (pieces? rest).map (.plain c :: ·)
termination_by text.length
decreasing_by all_goals simp only [List.length_cons]; omega

/-- Put the line ends of a text into normal form. A carriage return becomes a
line feed when a plain character follows, and swallows a plain line feed; the
last plain character of a text becomes a line feed if it is a carriage return.
Referenced characters stay as they are, and so does the plain character right
after one. `held` says that a carriage return stands before the text and is not
yet written, `exempt` that a reference stands before it. -/
def normalLines (held exempt : Bool) : List Piece → List Char
  | [] => if held then ['\r'] else []
  | .referenced c :: rest =>
    let before := if held then ['\r'] else []
    if c = '\r' then before ++ normalLines true true rest
    else before ++ c :: normalLines false true rest
  | .plain c :: rest =>
    if exempt then
      let before := if held then ['\r'] else []
      if c = '\r' then before ++ normalLines true false rest
      else before ++ c :: normalLines false false rest
    else
      let before := if held then ['\n'] else []
      if c = '\r' then
        if rest.isEmpty then before ++ ['\n'] else before ++ normalLines true false rest
      else if held && c == '\n' then before ++ normalLines false false rest
      else before ++ c :: normalLines false false rest

/-- Put the line ends of a character data section into normal form: a carriage
return, alone or before a line feed, becomes a line feed. -/
def sectionLines : List Char → List Char
  | [] => []
  | '\r' :: '\n' :: rest => '\n' :: sectionLines rest
  | '\r' :: rest => '\n' :: sectionLines rest
  | c :: rest => c :: sectionLines rest

/-- Put the white space of an attribute value into normal form: every plain tab
or line end becomes one space. -/
def normalSpaces : List Piece → List Char
  | [] => []
  | .referenced c :: rest => c :: normalSpaces rest
  | .plain '\r' :: .plain '\n' :: rest => ' ' :: normalSpaces rest
  | .plain c :: rest =>
    (if c == '\t' || c == '\n' || c == '\r' then ' ' else c) :: normalSpaces rest

/-- The content of a text between pieces of markup. It may not hold the end of a
character data section. -/
def textContent? (body : List Char) : Option String :=
  if body.all isAllowed && (Text.cutAtAll? [']', ']', '>'] body).isNone then
    (pieces? body).map fun pieces => String.ofList (normalLines false false pieces)
  else none

/-- The content of a character data section, where nothing is a reference. -/
def sectionContent? (body : List Char) : Option String :=
  if body.all isAllowed then some (String.ofList (sectionLines body)) else none

/-- The value of an attribute. -/
def attributeContent? (body : List Char) : Option String :=
  (pieces? body).map fun pieces => String.ofList (normalSpaces pieces)

end Framecode.Xml
