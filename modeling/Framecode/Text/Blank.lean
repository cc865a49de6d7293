import Framecode.Text.Ranges

/-! Blank characters: the ones with the Unicode property `White_Space`. They
separate the words of a source line, and surrounding blanks never count in a
document's texts or in a line of input. -/
namespace Framecode.Text

/-- The code points with the Unicode property `White_Space`. -/
def blankRanges : List (Nat × Nat) :=
  [(0x9, 0xD), (0x20, 0x20), (0x85, 0x85), (0xA0, 0xA0), (0x1680, 0x1680),
    (0x2000, 0x200A), (0x2028, 0x2029), (0x202F, 0x202F), (0x205F, 0x205F), (0x3000, 0x3000)]

/-- Whether a character is blank. -/
def isBlank (c : Char) : Bool := inRanges blankRanges c

/-- A text without its leading blanks. -/
def trimStart (text : List Char) : List Char := text.dropWhile isBlank

/-- A text without its trailing blanks. -/
def trimEnd (text : List Char) : List Char := (text.reverse.dropWhile isBlank).reverse

/-- A text without the blanks around it. -/
def trim (text : List Char) : List Char := trimEnd (trimStart text)

/-- A string without the blanks around it. -/
def trimmed (text : String) : String := String.ofList (trim text.toList)

/-- Whether a string consists of blanks only. -/
def isBlankText (text : String) : Bool := text.toList.all isBlank

/-- Cut a text at every character of a class. The cut characters are dropped,
so a text with `n` of them has `n + 1` pieces. -/
def splitWhere (cut : Char → Bool) : List Char → List (List Char)
  | [] => [[]]
  | c :: rest =>
    if cut c then [] :: splitWhere cut rest
    else match splitWhere cut rest with
      | [] => [[c]]
      | piece :: pieces => (c :: piece) :: pieces

/-- The words of a text: its maximal runs of characters that are not blank. -/
def words (text : List Char) : List (List Char) :=
  (splitWhere isBlank text).filter fun piece => !piece.isEmpty

end Framecode.Text
