/-! Escapes in string literals. A backslash and three decimal digits stand for
the character with that code; a backslash stands for nothing else. -/
namespace Framecode.Escape

/-- The numeral of an ASCII decimal digit. -/
def decimal? (c : Char) : Option Nat :=
  if '0' ≤ c ∧ c ≤ '9' then some (c.toNat - '0'.toNat) else none

/-- The character with a given code, if there is one. -/
def ofCode? (code : Nat) : Option Char :=
  if code.isValidChar then some (Char.ofNat code) else none

/-- The character that three decimal digits name. -/
def character? (hundreds tens units : Char) : Option Char := do
  let high ← decimal? hundreds
  let middle ← decimal? tens
  let low ← decimal? units
  ofCode? (100 * high + 10 * middle + low)

/-- Replace every escape by the character it names. There is no result when a
backslash is not followed by three digits. -/
def decode : List Char → Option (List Char)
  | [] => some []
  | c :: rest =>
    if c = '\\' then
      match rest with
      | hundreds :: tens :: units :: after =>
        match character? hundreds tens units with
        | some named => (decode after).map (named :: ·)
        | none => none
      | _ => none
    else (decode rest).map (c :: ·)

/-- Replace every escape of a string. -/
def decodeText? (text : String) : Option String := (decode text.toList).map String.ofList

/-- Whether every backslash of a string starts an escape. -/
def isWellFormed (text : String) : Bool := (decodeText? text).isSome

end Framecode.Escape
