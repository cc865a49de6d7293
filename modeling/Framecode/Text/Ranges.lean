/-! Character classes given by ranges of code points. The larger classes of the
language are tables of such ranges, and membership is a plain search. -/
namespace Framecode.Text

/-- A character belongs to a table when its code point lies in one of the
table's ranges, both ends included. -/
def inRanges (table : List (Nat × Nat)) (c : Char) : Bool :=
  table.any fun range => range.1 ≤ c.toNat && c.toNat ≤ range.2

end Framecode.Text
