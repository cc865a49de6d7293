import Framecode.Text.Ranges

/-! Characters of XML documents: which may occur at all, which are white space
between pieces of markup, and which may spell a name. -/
namespace Framecode.Xml

/-- Whether a character may occur in a document. -/
def isAllowed (c : Char) : Bool :=
  if c.toNat < 0x20 then c == '\t' || c == '\n' || c == '\r'
  else c.toNat != 0xFFFE && c.toNat != 0xFFFF

/-- Whether a character is white space between pieces of markup. -/
def isSpace (c : Char) : Bool := c == ' ' || c == '\t' || c == '\n' || c == '\r'

/-- The code points that a name may start with, the colon left out. -/
def nameStartRanges : List (Nat × Nat) :=
  [(0x41, 0x5A), (0x5F, 0x5F), (0x61, 0x7A), (0xC0, 0xD6), (0xD8, 0xF6), (0xF8, 0x2FF),
    (0x370, 0x37D), (0x37F, 0x1FFF), (0x200C, 0x200D), (0x2070, 0x218F), (0x2C00, 0x2FEF),
    (0x3001, 0xD7FF), (0xF900, 0xFDCF), (0xFDF0, 0xFFFD), (0x10000, 0xEFFFF)]

/-- Further code points that a name may hold. -/
def nameRestRanges : List (Nat × Nat) :=
  [(0x2D, 0x2E), (0x30, 0x39), (0xB7, 0xB7), (0x300, 0x36F), (0x203F, 0x2040)]

/-- Whether a name may start with a character. -/
def startsName (c : Char) : Bool := c == ':' || Text.inRanges nameStartRanges c

/-- Whether a character may stand in a name. -/
def continuesName (c : Char) : Bool := startsName c || Text.inRanges nameRestRanges c

end Framecode.Xml
