/-! Comparison of words without regard to the case of ASCII letters. No other
letter has its case folded. -/
namespace Framecode.Text

/-- A word with its ASCII letters in lower case. -/
def foldCase (text : String) : List Char := text.toList.map Char.toLower

/-- Whether two words differ at most in the case of ASCII letters. -/
def sameWord (left right : String) : Bool := foldCase left == foldCase right

end Framecode.Text
