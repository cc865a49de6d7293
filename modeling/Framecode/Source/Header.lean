import Framecode.Text.Ascii

/-! The header: the word that every program starts with. -/
namespace Framecode.Source

/-- The word that starts a program. Its ASCII case does not matter. -/
def header : String := ".IPPcode24"

/-- Whether a word is the header. -/
def isHeader (word : String) : Bool := Text.sameWord word header

end Framecode.Source
