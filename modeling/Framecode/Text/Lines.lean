import Framecode.Text.Blank

/-! Lines of a text. A line ends at a line feed, and one carriage return right
before that line feed belongs to the line end. A last piece without a line feed
is a line when it is not empty, and keeps every character it has. -/
namespace Framecode.Text

/-- A line without the carriage return that its line end may have had. -/
def dropReturn (line : List Char) : List Char :=
  match line.getLast? with
  | some '\r' => line.dropLast
  | _ => line

/-- The lines of a text, in order. -/
def lines (text : List Char) : List (List Char) :=
  let pieces := splitWhere (· == '\n') text
  let closed := pieces.dropLast.map dropReturn
  match pieces.getLast? with
  | none | some [] => closed
  | some last => closed ++ [last]

end Framecode.Text
