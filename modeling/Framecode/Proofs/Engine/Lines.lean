import Framecode.Engine.Input

/-! Raw lines of input. The bytes of an input fall into lines, each with the line feed that
ends it; what stands behind the last line feed is a line too, unless that is nothing. A read
looks at the first of these lines and at nothing else, and takes it off as a whole, whether
or not it has the text of a value. -/
namespace Framecode.Engine.Input

/-- The lines of some bytes, with their line feeds. -/
def linesIn : List UInt8 → List (List UInt8)
  | [] => []
  | byte :: rest =>
    if byte = lineFeed then [byte] :: linesIn rest
    else
      match linesIn rest with
      | [] => [[byte]]
      | line :: more => (byte :: line) :: more

/-- The lines of an input, with their line feeds. -/
def rawLines (input : Input) : List (List UInt8) := linesIn input.bytes

/-- The text of a line, without its line feed and a carriage return before that. There is
none when the bytes are not UTF-8. -/
def lineText? (line : List UInt8) : Option String :=
  let ended := if line.getLast? = some lineFeed then dropReturn line.dropLast else line
  String.fromUTF8? ⟨ended.toArray⟩

/-- The value of a given type that a line spells. -/
def lineValue? (type : Readable) (line : List UInt8) : Option Value :=
  (lineText? line).bind (valueOf? · type)

private theorem lineFeed_not_mem_splitLine (bytes : List UInt8) :
    lineFeed ∉ (splitLine bytes).1 := by
  induction bytes with
  | nil => exact List.not_mem_nil
  | cons byte rest ih =>
    rw [splitLine]
    split
    · exact List.not_mem_nil
    · rename_i other
      exact List.not_mem_cons_of_ne_of_not_mem (Ne.symm other) ih

/-- The first line of some bytes, as a read splits it off, and the lines behind it. -/
theorem linesIn_splitLine {bytes : List UInt8} (filled : bytes ≠ []) :
    linesIn bytes = ((splitLine bytes).1 ++ if (splitLine bytes).2.1 then [lineFeed] else []) ::
      linesIn (splitLine bytes).2.2 := by
  induction bytes with
  | nil => exact absurd rfl filled
  | cons byte rest ih =>
    rw [linesIn, splitLine]
    by_cases ends : byte = lineFeed
    · rw [if_pos ends, if_pos ends, ends]
      rfl
    · rw [if_neg ends, if_neg ends]
      cases rest with
      | nil => rfl
      | cons second more => rw [ih (List.cons_ne_nil second more), List.cons_append]

private theorem rawLines_nil {input : Input} (empty : input.bytes = []) : input.rawLines = [] := by
  rw [rawLines, empty, linesIn]

/-- Every read takes the first line off, and no other. -/
theorem rawLines_rest (input : Input) : input.rest.rawLines = input.rawLines.tail := by
  by_cases empty : input.bytes = []
  · rw [rawLines_nil empty, rest, empty]
    rfl
  · rw [rawLines, rawLines, linesIn_splitLine empty, List.tail_cons]
    rfl

/-- The text that a read looks at is that of the first line. -/
theorem line_eq_head (input : Input) : input.line? = input.rawLines.head?.bind lineText? := by
  by_cases empty : input.bytes = []
  · rw [rawLines_nil empty, line?, empty]
    rfl
  · have unended := lineFeed_not_mem_splitLine input.bytes
    rw [rawLines, linesIn_splitLine empty, List.head?_cons, Option.bind_some, line?,
      if_neg (by simpa using empty), lineText?]
    generalize splitLine input.bytes = parts at unended ⊢
    obtain ⟨line, ended, following⟩ := parts
    cases ended with
    | true => simp
    | false =>
      have last : line.getLast? ≠ some lineFeed := fun last => unended (List.mem_of_getLast? last)
      simp [last]

theorem value_eq_head (input : Input) (type : Readable) :
    input.value? type = input.rawLines.head?.bind (lineValue? type) := by
  rw [value?, line_eq_head]
  cases input.rawLines.head? <;> rfl

end Framecode.Engine.Input
