/-! Values that programs compute with: 64-bit two's complement integers,
truth values, texts and nil. Order and equality of values are what the
relational instructions are defined by. -/
namespace Framecode

/-- The type of a value. -/
inductive ValueType where
  | int
  | bool
  | string
  | nil
  deriving DecidableEq, Repr

namespace ValueType

/-- The name of a type, as READ and TYPE spell it. -/
def name : ValueType → String
  | .int => "int"
  | .bool => "bool"
  | .string => "string"
  | .nil => "nil"

/-- Every type, in the order of the declaration. -/
def all : List ValueType := [.int, .bool, .string, .nil]

/-- The type with a given name. Names are case sensitive. -/
def ofName? (text : String) : Option ValueType := all.find? (·.name == text)

end ValueType

/-- A value of a program. -/
inductive Value where
  | int (number : Int64)
  | bool (truth : Bool)
  | string (text : String)
  | nil
  deriving DecidableEq, Repr

namespace Value

/-- The type of a value. -/
def type : Value → ValueType
  | .int _ => .int
  | .bool _ => .bool
  | .string _ => .string
  | .nil => .nil

/-- Whether a value is nil. -/
def isNil : Value → Bool
  | .nil => true
  | _ => false

/-- The text of a truth value. -/
def truthText (truth : Bool) : String := if truth then "true" else "false"

/-- The text that WRITE prints for a value: nil prints nothing. -/
def display : Value → String
  | .int number => toString number.toInt
  | .bool truth => truthText truth
  | .string text => text
  | .nil => ""

/-- The order of two values of one type other than nil; values of different
types, and nil, have none. False comes before true, and texts are ordered by
their code points. -/
def order? : Value → Value → Option Ordering
  | .int left, .int right => some (compare left.toInt right.toInt)
  | .bool left, .bool right => some (compare left right)
  | .string left, .string right => some (compare left.toList right.toList)
  | _, _ => none

/-- Equality as the relational instructions see it: nil equals only nil, and
two other values can be compared when they have the same type. -/
def equal? (left right : Value) : Option Bool :=
  if left.isNil || right.isNil then some (left.isNil && right.isNil)
  else if left.type = right.type then some (decide (left = right))
  else none

end Value

end Framecode
