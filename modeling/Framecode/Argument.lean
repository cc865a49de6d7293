import Framecode.Value
import Framecode.Literal.Integer
import Framecode.Literal.Escape
import Framecode.Text.Cut

/-! Arguments of instructions. An argument is a kind and the text that spells
it; reading the text as a value or as a variable can fail, and a
`DecodeError` tells how. -/
namespace Framecode

/-- Why a piece of text does not spell what it should. Each cause carries the
offending text. -/
inductive DecodeError where
  | frameRole (text : String)
  | varRef (text : String)
  | integer (text : String)
  | bool (text : String)
  | nil (text : String)
  | escape (text : String)
  | type (text : String)
  | kind (text : String)
  deriving DecidableEq, Repr

/-- The wording of a decoding error. -/
def DecodeError.message : DecodeError → String
  | .frameRole text => s!"invalid frame role '{text}'"
  | .varRef text => s!"invalid variable reference '{text}'"
  | .integer text => s!"invalid integer literal '{text}'"
  | .bool text => s!"invalid bool literal '{text}'"
  | .nil text => s!"invalid nil literal '{text}'"
  | .escape text => s!"invalid escape sequence in '{text}'"
  | .type text => s!"invalid type name '{text}'"
  | .kind text => s!"invalid argument kind '{text}'"

/-- What an argument is: a literal of some type, a variable, a label or the
name of a type. -/
inductive ArgKind where
  | literal (type : ValueType)
  | var
  | label
  | typeName
  deriving DecidableEq, Repr

namespace ArgKind

/-- The name of a kind; a literal is named for its type. -/
def name : ArgKind → String
  | .literal type => type.name
  | .var => "var"
  | .label => "label"
  | .typeName => "type"

/-- Every kind. -/
def all : List ArgKind :=
  [.literal .int, .literal .bool, .literal .string, .literal .nil, .var, .label, .typeName]

/-- The kind with a given name. Names are case sensitive. -/
def ofName? (text : String) : Option ArgKind := all.find? (·.name == text)

/-- Whether arguments of a kind spell a value themselves. -/
def isLiteral : ArgKind → Bool
  | .literal _ => true
  | _ => false

end ArgKind

/-- The frame that a variable lives in. -/
inductive FrameRole where
  | globalFrame
  | localFrame
  | temporaryFrame
  deriving DecidableEq, Repr

namespace FrameRole

/-- The two letters that name a frame in front of a variable. -/
def mark : FrameRole → String
  | .globalFrame => "GF"
  | .localFrame => "LF"
  | .temporaryFrame => "TF"

/-- Every frame role. -/
def all : List FrameRole := [.globalFrame, .localFrame, .temporaryFrame]

/-- The frame that two letters name. -/
def ofMark? (text : String) : Option FrameRole := all.find? (·.mark == text)

end FrameRole

/-- A variable: a name in a frame. -/
structure VarRef where
  frame : FrameRole
  name : String
  deriving DecidableEq, Repr

namespace VarRef

/-- The spelling of a variable. -/
def display (var : VarRef) : String := var.frame.mark ++ "@" ++ var.name

/-- Read a variable: the mark of its frame, an at sign and a nonempty name. The
first at sign ends the mark, so a name may hold further ones. -/
def parse (text : String) : Except DecodeError VarRef :=
  match Text.cutAt? '@' text.toList with
  | none => .error (.varRef text)
  | some (mark, name) =>
    match FrameRole.ofMark? (String.ofList mark) with
    | none => .error (.frameRole text)
    | some frame =>
      if name.isEmpty then .error (.varRef text) else .ok ⟨frame, String.ofList name⟩

end VarRef

/-- An argument of an instruction: its kind and its text. -/
structure Argument where
  kind : ArgKind
  text : String
  deriving DecidableEq, Repr

namespace Argument

/-- The argument that spells an integer. -/
def ofInt (number : Int64) : Argument := ⟨.literal .int, toString number.toInt⟩

/-- The argument that spells a truth value. -/
def ofBool (truth : Bool) : Argument := ⟨.literal .bool, Value.truthText truth⟩

/-- The string literal with a given spelling, escapes included. -/
def ofString (text : String) : Argument := ⟨.literal .string, text⟩

/-- The literal nil. -/
def ofNil : Argument := ⟨.literal .nil, "nil"⟩

/-- The literal for a value; a text stands in it as it is, with no escape added. -/
def ofValue : Value → Argument
  | .int number => ofInt number
  | .bool truth => ofBool truth
  | .string text => ofString text
  | .nil => ofNil

/-- The spelling of an argument in source text: a literal has its kind in front. -/
def display (arg : Argument) : String :=
  if arg.kind.isLiteral then arg.kind.name ++ "@" ++ arg.text else arg.text

/-- Read the text of a literal of a given type. -/
def decode (type : ValueType) (text : String) : Except DecodeError Value :=
  match type with
  | .int =>
    match Integer.parse? text with
    | some number => .ok (.int number)
    | none => .error (.integer text)
  | .bool =>
    if text = "true" then .ok (.bool true)
    else if text = "false" then .ok (.bool false)
    else .error (.bool text)
  | .string =>
    match Escape.decodeText? text with
    | some decoded => .ok (.string decoded)
    | none => .error (.escape text)
  | .nil => if text = "nil" then .ok .nil else .error (.nil text)

/-- The value of a literal; other arguments have none of their own. -/
def literal (arg : Argument) : Except DecodeError (Option Value) :=
  match arg.kind with
  | .literal type => (decode type arg.text).map some
  | _ => .ok none

/-- The variable that the text of an argument names. -/
def varRef (arg : Argument) : Except DecodeError VarRef := VarRef.parse arg.text

end Argument

end Framecode
