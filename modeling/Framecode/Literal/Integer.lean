/-! Integer literals: an optional sign, then decimal digits, or `0x` and
hexadecimal digits, or `0o` and octal digits. The number must fit into 64 bits. -/
namespace Framecode.Integer

/-- The numeral that an ASCII digit stands for, letters counting from ten. -/
def digitValue? (c : Char) : Option Nat :=
  if '0' ≤ c ∧ c ≤ '9' then some (c.toNat - '0'.toNat)
  else if 'a' ≤ c ∧ c ≤ 'f' then some (c.toNat - 'a'.toNat + 10)
  else if 'A' ≤ c ∧ c ≤ 'F' then some (c.toNat - 'A'.toNat + 10)
  else none

/-- The numeral of a digit in a given radix. -/
def digitIn? (radix : Nat) (c : Char) : Option Nat :=
  (digitValue? c).filter (· < radix)

/-- Read digits onto a number already read, the most significant one first. -/
def readDigits? (radix : Nat) : Nat → List Char → Option Nat
  | number, [] => some number
  | number, c :: rest =>
    match digitIn? radix c with
    | some digit => readDigits? radix (number * radix + digit) rest
    | none => none

/-- The number that a nonempty row of digits denotes in a radix. -/
def ofDigits? (radix : Nat) (digits : List Char) : Option Nat :=
  if digits.isEmpty then none else readDigits? radix 0 digits

/-- The number that an unsigned literal denotes. -/
def magnitude? : List Char → Option Nat
  | '0' :: 'x' :: digits => ofDigits? 16 digits
  | '0' :: 'X' :: digits => ofDigits? 16 digits
  | '0' :: 'o' :: digits => ofDigits? 8 digits
  | '0' :: 'O' :: digits => ofDigits? 8 digits
  | digits => ofDigits? 10 digits

/-- The number that a literal denotes, before any bound on its size. -/
def number? : List Char → Option Int
  | '+' :: rest => (magnitude? rest).map Int.ofNat
  | '-' :: rest => (magnitude? rest).map fun magnitude => -Int.ofNat magnitude
  | text => (magnitude? text).map Int.ofNat

/-- The 64-bit integer equal to a number, when there is one. -/
def narrow? (number : Int) : Option Int64 :=
  if Int64.minValue.toInt ≤ number ∧ number ≤ Int64.maxValue.toInt then
    some (Int64.ofInt number)
  else none

/-- Read an integer literal. -/
def parse? (text : String) : Option Int64 := (number? text.toList).bind narrow?

/-- Read a plain decimal number, with an optional plus sign and any number of
leading zeros. -/
def natural? : List Char → Option Nat
  | '+' :: digits => ofDigits? 10 digits
  | digits => ofDigits? 10 digits

end Framecode.Integer
