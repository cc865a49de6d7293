import Framecode.Proofs.Engine.Lines
import Framecode.Proofs.Text.Bytes
import Framecode.Text.Lines

/-! Reads one after another. The bytes of an input are cut behind every line feed, and each
read answers for one of these lines: the first read for the first line, the next one for the
next line, whatever types they ask for and whatever the lines hold. Texts that are written
on lines of their own are read back as they are. -/
namespace Framecode.Engine.Input

open Text (utf8 utf8_append)

/-! ## Lines of bytes -/

/-- The lines of some bytes are the pieces between line feeds, each with the line feed behind
it; what stands behind the last line feed is a line if it is not empty. -/
theorem linesIn_eq_pieces (bytes : List UInt8) :
    ∃ closed last, bytes.splitOn lineFeed = closed ++ [last] ∧
      linesIn bytes = closed.map (· ++ [lineFeed]) ++ if last = [] then [] else [last] := by
  induction bytes with
  | nil => exact ⟨[], [], rfl, rfl⟩
  | cons byte rest ih =>
    obtain ⟨closed, last, pieces, lines⟩ := ih
    rw [List.splitOn_eq_splitOnP] at pieces
    rw [List.splitOn_eq_splitOnP, List.splitOnP_cons_eq_if_modifyHead, linesIn, pieces, lines]
    by_cases ends : byte = lineFeed
    · refine ⟨[] :: closed, last, ?_, ?_⟩
      · simp [ends]
      · simp [ends]
    · cases closed with
      | nil =>
        refine ⟨[], byte :: last, ?_, ?_⟩
        · simp [ends]
        · cases last <;> simp [ends]
      | cons first more =>
        refine ⟨(byte :: first) :: more, last, ?_, ?_⟩
        · simp [ends]
        · simp [ends]

/-- Bytes up to a line feed are split off as the first line. -/
theorem splitLine_ended {line : List UInt8} (unbroken : lineFeed ∉ line)
    (following : List UInt8) :
    splitLine (line ++ lineFeed :: following) = (line, true, following) := by
  induction line with
  | nil => simp [splitLine]
  | cons byte line ih =>
    rw [List.mem_cons, not_or] at unbroken
    rw [List.cons_append, splitLine, if_neg (Ne.symm unbroken.1), ih unbroken.2]

/-! ## Texts of lines -/

/-- A line of text without its line feed, and without a carriage return right before that. -/
def lineOf (whole : List Char) : List Char :=
  if whole.getLast? = some '\n' then Text.dropReturn whole.dropLast else whole

private theorem dropReturn_utf8 (text : List Char) :
    dropReturn (utf8 text) = utf8 (Text.dropReturn text) := by
  have ends := @Text.getLast_utf8_iff '\r' (by decide) text
  change (utf8 text).getLast? = some carriageReturn ↔ _ at ends
  rw [dropReturn, Text.dropReturn]
  split
  · rename_i found
    have returned := ends.mp found
    rw [Text.dropLast_utf8 (by decide) returned]
    simp only [returned]
  · rename_i other
    split
    · rename_i found
      exact absurd (ends.mpr found) other
    · rfl

/-- A line that is the bytes of a text has that text, without its line end. -/
theorem lineText_utf8 (whole : List Char) :
    lineText? (utf8 whole) = some (String.ofList (lineOf whole)) := by
  have ends := @Text.getLast_utf8_iff '\n' (by decide) whole
  change (utf8 whole).getLast? = some lineFeed ↔ _ at ends
  rw [lineText?, Text.fromUTF8_some_iff, String.toList_ofList, lineOf]
  by_cases found : whole.getLast? = some '\n'
  · rw [if_pos (ends.mpr found), if_pos found, Text.dropLast_utf8 (by decide) found,
      dropReturn_utf8]
  · rw [if_neg (mt ends.mp found), if_neg found]

/-- A line that has a text is the bytes of one, line end included. -/
theorem utf8_of_lineText {line : List UInt8} {text : String} (read : lineText? line = some text) :
    ∃ whole, line = utf8 whole := by
  rw [lineText?, Text.fromUTF8_some_iff] at read
  split at read
  · rename_i ends
    obtain ⟨before, rfl⟩ := List.getLast?_eq_some_iff.mp ends
    rw [List.dropLast_concat, dropReturn] at read
    split at read
    · rename_i returned
      obtain ⟨start, rfl⟩ := List.getLast?_eq_some_iff.mp returned
      rw [List.dropLast_concat] at read
      exact ⟨text.toList ++ ['\r', '\n'], by rw [utf8_append, ← read, List.append_assoc]; rfl⟩
    · exact ⟨text.toList ++ ['\n'], by rw [utf8_append, ← read]; rfl⟩
  · exact ⟨text.toList, read⟩

/-! ## Answers -/

/-- What a read of some type answers for a line, if there is one. There is no value at the end
of the input, nor on a line that is not UTF-8, nor on one that does not spell a value of the
type; blanks around a number or a truth value do not count. -/
inductive Answers : Readable → Option (List UInt8) → Option Value → Prop where
  | atEnd {type : Readable} : Answers type none none
  | notText {type : Readable} {line : List UInt8} (unreadable : ∀ whole, line ≠ utf8 whole) :
      Answers type (some line) none
  | string {whole : List Char} :
      Answers .string (some (utf8 whole)) (some (.string (String.ofList (lineOf whole))))
  | int {whole : List Char} {number : Int64}
      (spelt : Integer.parse? (String.ofList (Text.trim (lineOf whole))) = some number) :
      Answers .int (some (utf8 whole)) (some (.int number))
  | notInt {whole : List Char}
      (unspelt : Integer.parse? (String.ofList (Text.trim (lineOf whole))) = none) :
      Answers .int (some (utf8 whole)) none
  | bool {whole : List Char} {truth : Bool}
      (spelt : Text.sameWord (String.ofList (Text.trim (lineOf whole)))
        (Value.truthText truth) = true) :
      Answers .bool (some (utf8 whole)) (some (.bool truth))
  | notBool {whole : List Char}
      (unspelt : ∀ truth, Text.sameWord (String.ofList (Text.trim (lineOf whole)))
        (Value.truthText truth) = false) :
      Answers .bool (some (utf8 whole)) none

/-- A word has a truth value exactly when it is the text of that value in some ASCII case. -/
theorem truth_some_iff {word : String} {truth : Bool} :
    truth? word = some truth ↔ Text.sameWord word (Value.truthText truth) = true := by
  have apart : Text.foldCase "true" ≠ Text.foldCase "false" := by decide
  simp only [truth?, Text.sameWord, beq_iff_eq]
  by_cases yes : Text.foldCase word = Text.foldCase "true"
  · rw [if_pos yes, yes]
    cases truth with
    | true => simp [Value.truthText]
    | false => simp [Value.truthText, apart]
  · rw [if_neg yes]
    cases truth with
    | true => simp [Value.truthText, yes]
    | false => simp [Value.truthText]

private theorem truth_none_iff {word : String} :
    truth? word = none ↔ ∀ truth, Text.sameWord word (Value.truthText truth) = false := by
  rw [Option.eq_none_iff_forall_ne_some]
  simp only [ne_eq, truth_some_iff, Bool.not_eq_true]

theorem lineValue_utf8 (type : Readable) (whole : List Char) :
    lineValue? type (utf8 whole) = valueOf? (String.ofList (lineOf whole)) type := by
  rw [lineValue?, lineText_utf8, Option.bind_some]

/-- What a read gets from a line is its answer, and no other. -/
theorem answers_iff {type : Readable} {line : Option (List UInt8)} {answer : Option Value} :
    Answers type line answer ↔ line.bind (lineValue? type) = answer := by
  constructor
  · intro answers
    cases answers with
    | atEnd => rfl
    | @notText _ line unreadable =>
      cases read : lineText? line with
      | none => rw [Option.bind_some, lineValue?, read, Option.bind_none]
      | some text =>
        obtain ⟨whole, same⟩ := utf8_of_lineText read
        exact absurd same (unreadable whole)
    | string => rw [Option.bind_some, lineValue_utf8]; rfl
    | int spelt | notInt spelt =>
      rw [Option.bind_some, lineValue_utf8, valueOf?, Text.trimmed, String.toList_ofList, spelt]
      rfl
    | bool spelt =>
      rw [Option.bind_some, lineValue_utf8, valueOf?, Text.trimmed, String.toList_ofList,
        truth_some_iff.mpr spelt]
      rfl
    | notBool unspelt =>
      rw [Option.bind_some, lineValue_utf8, valueOf?, Text.trimmed, String.toList_ofList,
        truth_none_iff.mpr unspelt]
      rfl
  · rintro rfl
    cases line with
    | none => exact .atEnd
    | some line =>
      rw [Option.bind_some]
      by_cases readable : ∃ whole, line = utf8 whole
      · obtain ⟨whole, rfl⟩ := readable
        rw [lineValue_utf8]
        cases type with
        | string => exact .string
        | int =>
          rw [valueOf?, Text.trimmed, String.toList_ofList]
          cases spelt : Integer.parse? (String.ofList (Text.trim (lineOf whole))) with
          | none => exact .notInt spelt
          | some number => exact .int spelt
        | bool =>
          rw [valueOf?, Text.trimmed, String.toList_ofList]
          cases spelt : truth? (String.ofList (Text.trim (lineOf whole))) with
          | none => exact .notBool (truth_none_iff.mp spelt)
          | some truth => exact .bool (truth_some_iff.mp spelt)
      · cases read : lineText? line with
        | none =>
          rw [lineValue?, read, Option.bind_none]
          exact .notText fun whole same => readable ⟨whole, same⟩
        | some text => exact absurd (utf8_of_lineText read) readable

/-! ## Sequences of reads -/

/-- The values that reads of some types get, one read after another. -/
def readings (input : Input) : List Readable → List (Option Value)
  | [] => []
  | type :: types => input.value? type :: input.rest.readings types

/-- Each read gets its value from the line with its own number, and the lines before it have
no influence. -/
theorem readings_getElem {types : List Readable} {index : Nat} {type : Readable}
    (asked : types[index]? = some type) (input : Input) :
    (input.readings types)[index]? = some (input.rawLines[index]?.bind (lineValue? type)) := by
  induction types generalizing input index with
  | nil => cases asked
  | cons first types ih =>
    rw [readings]
    cases index with
    | zero =>
      cases asked
      rw [List.getElem?_cons_zero, value_eq_head, List.head?_eq_getElem?]
    | succ index =>
      rw [List.getElem?_cons_succ] at asked ⊢
      rw [ih asked, rawLines_rest, List.getElem?_tail]

/-! ## Lines that are written -/

/-- The line ends: a line feed, or a carriage return and a line feed. -/
def lineEnds : List (List Char) := [['\n'], ['\r', '\n']]

/-- A text on a line of its own is what that line holds. -/
theorem lineOf_ended {text ends : List Char} (bare : text.getLast? ≠ some '\r')
    (ended : ends ∈ lineEnds) : lineOf (text ++ ends) = text := by
  simp only [lineEnds, List.mem_cons, List.not_mem_nil, or_false] at ended
  rcases ended with rfl | rfl
  · rw [lineOf, if_pos List.getLast?_concat, List.dropLast_concat, Text.dropReturn]
    split
    · rename_i returned
      exact absurd returned bare
    · rfl
  · have split : text ++ ['\r', '\n'] = (text ++ ['\r']) ++ ['\n'] := by simp
    rw [lineOf, split, if_pos List.getLast?_concat, List.dropLast_concat, Text.dropReturn]
    simp

/-- A text and a line end are the first line of an input that starts with them, and the rest
of the input is behind it. -/
theorem lines_written {text ends : List Char} (unbroken : '\n' ∉ text) (ended : ends ∈ lineEnds)
    (following : List UInt8) :
    (Input.mk (utf8 (text ++ ends) ++ following)).rawLines =
        utf8 (text ++ ends) :: (Input.mk following).rawLines ∧
      (Input.mk (utf8 (text ++ ends) ++ following)).rest = ⟨following⟩ := by
  obtain ⟨body, rfl, whole⟩ : ∃ body, ends = body ++ ['\n'] ∧ '\n' ∉ text ++ body := by
    simp only [lineEnds, List.mem_cons, List.not_mem_nil, or_false] at ended
    rcases ended with rfl | rfl
    · exact ⟨[], rfl, by simpa using unbroken⟩
    · exact ⟨['\r'], rfl, by simpa using unbroken⟩
  have line : utf8 (text ++ (body ++ ['\n'])) = utf8 (text ++ body) ++ [lineFeed] := by
    rw [← List.append_assoc, utf8_append]
    rfl
  have absent : lineFeed ∉ utf8 (text ++ body) :=
    mt (@Text.mem_utf8_iff '\n' (by decide) _).mp whole
  have split := splitLine_ended absent following
  rw [line, List.append_assoc, List.singleton_append]
  constructor
  · rw [rawLines, linesIn_splitLine (by simp), split]
    rfl
  · rw [rest, split]

/-- Texts on lines of their own are read back one after another. -/
theorem readings_written {written : List (String × List Char)}
    (lines : ∀ entry ∈ written, '\n' ∉ entry.1.toList ∧ entry.1.toList.getLast? ≠ some '\r' ∧
      entry.2 ∈ lineEnds) (following : List UInt8) :
    readings ⟨utf8 (written.flatMap fun entry => entry.1.toList ++ entry.2) ++ following⟩
      (written.map fun _ => .string) = written.map fun entry => some (.string entry.1) := by
  induction written with
  | nil => rfl
  | cons entry written ih =>
    obtain ⟨⟨unbroken, bare, ended⟩, others⟩ := List.forall_mem_cons.mp lines
    rw [List.flatMap_cons, utf8_append, List.append_assoc, List.map_cons, List.map_cons, readings]
    obtain ⟨first, behind⟩ := lines_written unbroken ended
      (utf8 (written.flatMap fun entry => entry.1.toList ++ entry.2) ++ following)
    rw [behind, ih others, value_eq_head, first, List.head?_cons, Option.bind_some, lineValue_utf8,
      lineOf_ended bare ended, String.ofList_toList]
    rfl

/-- Reads take the lines of an input one by one, and nothing is lost. The lines are the pieces
of the bytes that end at each line feed, and a last piece without a line feed unless it is
empty. In any sequence of reads each one answers for the line with its own number and for
no other; behind the last line there is nothing to read. Texts without a line feed, and
without a carriage return at their ends, that are written with a line feed or a carriage
return and a line feed behind each of them come back when as many texts are read. -/
theorem reads_take_lines_in_turn :
    (∀ bytes : List UInt8, ∃ closed last, bytes.splitOn lineFeed = closed ++ [last] ∧
      (Input.mk bytes).rawLines =
        closed.map (· ++ [lineFeed]) ++ if last = [] then [] else [last]) ∧
    (∀ (bytes : List UInt8) (types : List Readable) (index : Nat) (type : Readable)
      (answer : Option Value), types[index]? = some type →
      ((readings ⟨bytes⟩ types)[index]? = some answer ↔
        Answers type (Input.mk bytes).rawLines[index]? answer)) ∧
    ∀ (written : List (String × List Char)) (following : List UInt8),
      (∀ entry ∈ written, '\n' ∉ entry.1.toList ∧ entry.1.toList.getLast? ≠ some '\r' ∧
        entry.2 ∈ lineEnds) →
      readings ⟨utf8 (written.flatMap fun entry => entry.1.toList ++ entry.2) ++ following⟩
        (written.map fun _ => .string) = written.map fun entry => some (.string entry.1) := by
  refine ⟨linesIn_eq_pieces, ?_, fun written following lines => readings_written lines following⟩
  intro bytes types index type answer asked
  rw [readings_getElem asked, Option.some.injEq, answers_iff]

/-- Bytes of four lines: a number among blanks, a text with carriage returns in it and at its
end, a byte that is not UTF-8, and a truth value that no line feed ends. -/
def mixedBytes : List UInt8 :=
  [9, 45, 55, 32, 13, 10, 97, 13, 98, 13, 13, 10, 255, 10, 84, 114, 117, 69, 13]

/-- The types of five reads. -/
def mixedTypes : List Readable := [.int, .string, .string, .bool, .int]

theorem mixed_lines_read_in_turn :
    mixedTypes[1]? = some .string ∧
      (readings ⟨mixedBytes⟩ mixedTypes)[1]? = some (some (.string "a\rb\r")) ∧
    mixedTypes[4]? = some .int ∧ (readings ⟨mixedBytes⟩ mixedTypes)[4]? = some none ∧
    (∀ entry ∈ [("a\rb", ['\r', '\n']), ("č", ['\n'])], '\n' ∉ entry.1.toList ∧
      entry.1.toList.getLast? ≠ some '\r' ∧ entry.2 ∈ lineEnds) ∧
    readings ⟨[97, 13, 98, 13, 10, 196, 141, 10, 255]⟩ [.string, .string] =
      [some (.string "a\rb"), some (.string "č")] := by
  obtain ⟨_, inTurn, comeBack⟩ := reads_take_lines_in_turn
  have second : (Input.mk mixedBytes).rawLines[1]? =
      some (utf8 ['a', '\r', 'b', '\r', '\r', '\n']) := by decide
  have fifth : (Input.mk mixedBytes).rawLines[4]? = none := by decide
  have lines : ∀ entry ∈ [("a\rb", ['\r', '\n']), ("č", ['\n'])], '\n' ∉ entry.1.toList ∧
      entry.1.toList.getLast? ≠ some '\r' ∧ entry.2 ∈ lineEnds := by decide
  refine ⟨rfl, (inTurn _ _ 1 .string _ rfl).mpr ?_, rfl, (inTurn _ _ 4 .int _ rfl).mpr ?_,
    lines, comeBack _ [255] lines⟩
  · rw [second]
    exact .string
  · rw [fifth]
    exact .atEnd

end Framecode.Engine.Input
