import Framecode.Proofs.Engine.Reading
import Framecode.Proofs.Engine.Sinks
import Framecode.Proofs.Literal.Numerals
import Framecode.Proofs.Source.Separators
import Framecode.Proofs.Text.Trimming
import Mathlib.Data.Nat.Digits.Defs

/-! Integer literals by what they denote. A literal is an optional sign, an optional mark of
its radix and a row of digits, and denotes the number that the digits have in that radix by
their places. Reading accepts exactly the literals of numbers of 64 bits, and what is written
for a number is one of its literals. -/
namespace Framecode.Integer

/-! ## Digits -/

/-- A character is the digit for a value in a radix. The digits are those of ASCII, with
letters in either case. -/
def IsDigit (radix : Nat) (c : Char) (value : Nat) : Prop :=
  value < radix ∧ ("0123456789abcdef".toList[value]? = some c ∨
    "0123456789ABCDEF".toList[value]? = some c)

/-- A row of one digit or more, the first one with the highest place, denotes a number in a
radix. -/
def Denotes (radix : Nat) (digits : List Char) (number : Nat) : Prop :=
  digits ≠ [] ∧ ∃ values, List.Forall₂ (IsDigit radix) digits values ∧
    number = Nat.ofDigits radix values.reverse

private theorem toNat_lt_of_digitValue {c : Char} {value : Nat}
    (found : digitValue? c = some value) :
    c.toNat < 128 := by
  have bounded : ∀ high : Char, high.toNat < 128 → c ≤ high → c.toNat < 128 :=
    fun _ low below => Nat.lt_of_le_of_lt below low
  unfold digitValue? at found
  split at found
  · exact bounded '9' (by decide) (And.right ‹_›)
  · split at found
    · exact bounded 'f' (by decide) (And.right ‹_›)
    · split at found
      · exact bounded 'F' (by decide) (And.right ‹_›)
      · cases found

private theorem digitValue_some_iff {c : Char} {value : Nat} :
    digitValue? c = some value ↔ "0123456789abcdef".toList[value]? = some c ∨
      "0123456789ABCDEF".toList[value]? = some c := by
  constructor
  · intro found
    have table : ∀ code < 128, ∀ value ∈ digitValue? (Char.ofNat code),
        "0123456789abcdef".toList[value]? = some (Char.ofNat code) ∨
          "0123456789ABCDEF".toList[value]? = some (Char.ofNat code) := by decide +kernel
    have known := table c.toNat (toNat_lt_of_digitValue found)
    rw [Char.ofNat_toNat] at known
    exact known value found
  · intro listed
    have table : ∀ entry ∈ "0123456789abcdef".toList.zipIdx ++ "0123456789ABCDEF".toList.zipIdx,
        digitValue? entry.1 = some entry.2 := by decide +kernel
    refine table (c, value) (List.mem_append.mpr ?_)
    rw [List.mem_zipIdx_iff_getElem?, List.mem_zipIdx_iff_getElem?]
    exact listed

private theorem digitIn_some_iff {radix value : Nat} {c : Char} :
    digitIn? radix c = some value ↔ IsDigit radix c value := by
  rw [digitIn?, Option.filter_eq_some_iff, digitValue_some_iff, decide_eq_true_eq, IsDigit,
    and_comm]

/-- Digits that are read onto a number raise it by as many places as they are. -/
theorem readDigits_some_iff {radix start number : Nat} {digits : List Char} :
    readDigits? radix start digits = some number ↔
      ∃ values, List.Forall₂ (IsDigit radix) digits values ∧
        number = start * radix ^ digits.length + Nat.ofDigits radix values.reverse := by
  induction digits generalizing start with
  | nil => simp [readDigits?, eq_comm]
  | cons c digits ih =>
    simp only [readDigits?, List.forall₂_cons_left_iff]
    cases found : digitIn? radix c with
    | none =>
      simp only [reduceCtorEq, false_iff]
      rintro ⟨_, ⟨value, _, digit, _⟩, _⟩
      rw [digitIn_some_iff.mpr digit] at found
      cases found
    | some value =>
      have moved : ∀ values : List Nat, List.Forall₂ (IsDigit radix) digits values →
          (start * radix + value) * radix ^ digits.length + Nat.ofDigits radix values.reverse =
            start * radix ^ (digits.length + 1) + Nat.ofDigits radix (value :: values).reverse := by
        intro values rest
        rw [Nat.ofDigits_reverse_cons, rest.length_eq]
        ring
      simp only [ih]
      constructor
      · rintro ⟨values, rest, same⟩
        exact ⟨value :: values, ⟨value, values, digitIn_some_iff.mp found, rest, rfl⟩,
          same.trans (moved values rest)⟩
      · rintro ⟨_, ⟨other, values, digit, rest, rfl⟩, same⟩
        rw [digitIn_some_iff.mpr digit, Option.some.injEq] at found
        subst found
        exact ⟨values, rest, same.trans (moved values rest).symm⟩

private theorem ofDigits_some_iff {radix number : Nat} {digits : List Char} :
    ofDigits? radix digits = some number ↔ Denotes radix digits number := by
  rw [ofDigits?, Denotes]
  cases digits with
  | nil => simp
  | cons c digits =>
    rw [if_neg (by simp), readDigits_some_iff]
    simp

/-! ## Literals -/

/-- The marks in front of the digits, each with its radix. -/
def radixMarks : List (List Char × Nat) :=
  [([], 10), (['0', 'x'], 16), (['0', 'X'], 16), (['0', 'o'], 8), (['0', 'O'], 8)]

/-- The signs in front of a literal, each with the factor that it stands for. -/
def signs : List (List Char × Int) := [([], 1), (['+'], 1), (['-'], -1)]

/-- A text is a literal of a number. -/
def Spells (text : List Char) (number : Int) : Prop :=
  ∃ sign ∈ signs, ∃ mark ∈ radixMarks, ∃ digits magnitude,
    text = sign.1 ++ mark.1 ++ digits ∧ Denotes mark.2 digits magnitude ∧
      number = sign.2 * magnitude

/-- An unsigned literal is read by the mark that it starts with, and without a mark it is
decimal. -/
theorem magnitude_some_iff {text : List Char} {magnitude : Nat} :
    magnitude? text = some magnitude ↔
      ∃ mark ∈ radixMarks, ∃ digits, text = mark.1 ++ digits ∧ Denotes mark.2 digits magnitude := by
  constructor
  · intro read
    unfold magnitude? at read
    split at read
    · exact ⟨(['0', 'x'], 16), by simp [radixMarks], _, rfl, ofDigits_some_iff.mp read⟩
    · exact ⟨(['0', 'X'], 16), by simp [radixMarks], _, rfl, ofDigits_some_iff.mp read⟩
    · exact ⟨(['0', 'o'], 8), by simp [radixMarks], _, rfl, ofDigits_some_iff.mp read⟩
    · exact ⟨(['0', 'O'], 8), by simp [radixMarks], _, rfl, ofDigits_some_iff.mp read⟩
    · exact ⟨([], 10), by simp [radixMarks], _, rfl, ofDigits_some_iff.mp read⟩
  · rintro ⟨mark, listed, digits, rfl, denotes⟩
    have read := ofDigits_some_iff.mpr denotes
    simp only [radixMarks, List.mem_cons, List.not_mem_nil, or_false] at listed
    rcases listed with rfl | rfl | rfl | rfl | rfl
    · -- A letter of a mark is no decimal digit.
      rw [List.nil_append]
      unfold magnitude?
      split
      · cases read
      · cases read
      · cases read
      · cases read
      · exact read
    all_goals exact read

/-- The number that a literal denotes is the one that is read. -/
theorem number_some_iff {text : List Char} {number : Int} :
    number? text = some number ↔ Spells text number := by
  constructor
  · intro read
    unfold number? at read
    split at read
    all_goals
      obtain ⟨magnitude, unsigned, rfl⟩ := Option.map_eq_some_iff.mp read
      obtain ⟨mark, listed, digits, rfl, denotes⟩ := magnitude_some_iff.mp unsigned
    · exact ⟨(['+'], 1), by simp [signs], mark, listed, digits, magnitude, rfl, denotes, by simp⟩
    · exact ⟨(['-'], -1), by simp [signs], mark, listed, digits, magnitude, rfl, denotes, by simp⟩
    · exact ⟨([], 1), by simp [signs], mark, listed, digits, magnitude, rfl, denotes, by simp⟩
  · rintro ⟨sign, listed, mark, marked, digits, magnitude, rfl, denotes, rfl⟩
    have read := magnitude_some_iff.mpr ⟨mark, marked, digits, rfl, denotes⟩
    simp only [signs, List.mem_cons, List.not_mem_nil, or_false] at listed
    rcases listed with rfl | rfl | rfl
    · -- A sign is no digit, and no mark starts with one.
      unfold number?
      split
      · rename_i rest signed
        rw [show mark.1 ++ digits = '+' :: rest from signed] at read
        cases read
      · rename_i rest signed
        rw [show mark.1 ++ digits = '-' :: rest from signed] at read
        cases read
      · simp [read]
    · simp [number?, read]
    · simp [number?, read]

/-! ## 64 bits -/

theorem narrow_some_iff {number : Int} {narrowed : Int64} :
    narrow? number = some narrowed ↔ number = narrowed.toInt := by
  have least : Int64.minValue.toInt = -2 ^ 63 := rfl
  have most : Int64.maxValue.toInt = 2 ^ 63 - 1 := rfl
  rw [narrow?, least, most]
  constructor
  · intro found
    split at found
    · rename_i inside
      cases found
      rw [Int64.toInt_ofInt_of_le inside.1 (by omega)]
    · cases found
  · rintro rfl
    have low := narrowed.le_toInt
    have high := narrowed.toInt_lt
    rw [if_pos ⟨low, by omega⟩, Int64.ofInt_toInt]

/-- A text is read as an integer exactly when it is a literal of that integer. -/
theorem parse_some_iff {text : String} {number : Int64} :
    parse? text = some number ↔ Spells text.toList number.toInt := by
  simp only [parse?, Option.bind_eq_some_iff, number_some_iff, narrow_some_iff,
    exists_eq_right]

/-- A text is read at all exactly when it is a literal of a number of 64 bits. -/
theorem parse_isSome_iff {text : String} :
    (∃ number, parse? text = some number) ↔
      ∃ number, Spells text.toList number ∧ -2 ^ 63 ≤ number ∧ number ≤ 2 ^ 63 - 1 := by
  simp only [parse_some_iff]
  constructor
  · rintro ⟨narrowed, spells⟩
    have low := narrowed.le_toInt
    have high := narrowed.toInt_lt
    exact ⟨narrowed.toInt, spells, low, by omega⟩
  · rintro ⟨number, spells, low, high⟩
    refine ⟨Int64.ofInt number, ?_⟩
    rwa [Int64.toInt_ofInt_of_le low (by omega)]

/-! ## Numerals -/

private theorem denotes_numeral (number : Nat) : Denotes 10 (Nat.toDigits 10 number) number := by
  refine ofDigits_some_iff.mp ?_
  rw [ofDigits?, if_neg (by simp [Nat.toDigits_ne_nil]), readDigits_numeral]

/-- What is written for an integer is a literal of it. -/
theorem spells_numeral (number : Int) : Spells (toString number).toList number := by
  have decimal : (([], 10) : List Char × Nat) ∈ radixMarks := by simp [radixMarks]
  rw [Int.toString_eq_repr, Int.repr_eq_if]
  split
  · refine ⟨([], 1), by simp [signs], _, decimal, _, _, ?_, denotes_numeral number.toNat, ?_⟩
    · rw [Nat.toList_repr]
      rfl
    · simp only
      omega
  · refine ⟨(['-'], -1), by simp [signs], _, decimal, _, _, ?_, denotes_numeral (-number).toNat, ?_⟩
    · rw [String.toList_append, Nat.toList_repr]
      rfl
    · simp only
      omega

private theorem parse_numeral (number : Int64) : parse? (toString number.toInt) = some number :=
  parse_some_iff.mpr (spells_numeral number.toInt)

/-- Zeros in front of digits do not change what these denote. -/
theorem Denotes.behind_zeros {radix number : Nat} {digits : List Char} (valid : 0 < radix)
    (denotes : Denotes radix digits number) (zeros : Nat) :
    Denotes radix (List.replicate zeros '0' ++ digits) number := by
  obtain ⟨filled, values, each, rfl⟩ := denotes
  have zero : IsDigit radix '0' 0 := ⟨valid, .inl rfl⟩
  refine ⟨by simp [filled], List.replicate zeros 0 ++ values, ?_, ?_⟩
  · induction zeros with
    | zero => exact each
    | succ zeros ih => exact .cons zero ih
  · rw [List.reverse_append, List.reverse_replicate, Nat.ofDigits_append_replicate_zero]

/-! ## Numbers that are written -/

open Engine

/-- A line that holds what is written for an integer is read as that integer, with a line end
or without one. -/
theorem value_of_numeral {input : Input} {number : Int64} {ends : List Char}
    (ended : ends ∈ [] :: Input.lineEnds)
    (first : input.rawLines.head? =
      some (Text.utf8 ((toString number.toInt).toList ++ ends))) :
    input.value? .int = some (.int number) := by
  have unbroken : ∀ c ∈ (toString number.toInt).toList, Text.isBlank c = false :=
    fun c member => (Source.inWord_plain (Source.integer_inWord (parse_numeral number) c member)).1
  have held : Input.lineOf ((toString number.toInt).toList ++ ends) =
      (toString number.toInt).toList := by
    rcases List.mem_cons.mp ended with rfl | ended
    · rw [List.append_nil, Input.lineOf, if_neg]
      intro last
      exact absurd (unbroken _ (List.mem_of_getLast? last)) (by decide)
    · refine Input.lineOf_ended (fun last => ?_) ended
      exact absurd (unbroken _ (List.mem_of_getLast? last)) (by decide)
  rw [Input.value_eq_head, first, Option.bind_some, Input.lineValue_utf8, held, Input.valueOf?,
    Text.trimmed, String.toList_ofList, Text.trim_unbroken unbroken, String.ofList_toList,
    parse_numeral]
  rfl

/-- Integer literals are read exactly. A text is read as an integer exactly when it is a
literal of that integer: an optional sign, then decimal digits, or the mark of another radix
and digits of that radix, in any case and with any number of zeros in front. It is read at
all exactly when it denotes a number of 64 bits. So the literal that is made for an integer
is a literal of it, and a line that a WRITE has printed for an integer is read as that
integer. -/
theorem integer_literals_exact :
    (∀ text number, parse? text = some number ↔ Spells text.toList number.toInt) ∧
    (∀ text, (∃ number, parse? text = some number) ↔
      ∃ number, Spells text.toList number ∧ -2 ^ 63 ≤ number ∧ number ≤ 2 ^ 63 - 1) ∧
    (∀ sign ∈ signs, ∀ mark ∈ radixMarks, ∀ digits magnitude zeros,
      Denotes mark.2 digits magnitude →
      Spells (sign.1 ++ mark.1 ++ (List.replicate zeros '0' ++ digits)) (sign.2 * magnitude)) ∧
    (∀ number, (Argument.ofInt number).literal = .ok (some (.int number))) ∧
    ∀ (machine : Machine) (state next : State) (order : UInt32) (source : Argument)
      (number : Int64), machine.code.fetch? state.next = some ⟨order, .write, [source]⟩ →
      state.frames.valueOf source = .ok (.int number) → machine.step state = .running next →
      ∃ text, next.written = text :: state.written ∧
        ∀ (input : Input) (ends : List Char), ends ∈ [] :: Input.lineEnds →
          input.rawLines.head? = some (Text.utf8 (text.toList ++ ends)) →
          input.value? .int = some (.int number) := by
  refine ⟨fun _ _ => parse_some_iff, fun _ => parse_isSome_iff, ?_, ?_, ?_⟩
  · intro sign listed mark marked digits magnitude zeros denotes
    have valid : 0 < mark.2 := by
      simp only [radixMarks, List.mem_cons, List.not_mem_nil, or_false] at marked
      rcases marked with rfl | rfl | rfl | rfl | rfl <;> decide
    exact ⟨sign, listed, mark, marked, _, magnitude, rfl, denotes.behind_zeros valid zeros, rfl⟩
  · intro number
    simp only [Argument.literal, Argument.ofInt, Argument.decode, parse_numeral, Except.map]
  · intro machine state next order source number fetched valued ran
    have shown : textOf? state ⟨order, .write, [source]⟩ = some (Value.int number).display :=
      textOf_some_iff.mpr ⟨source, _, rfl, valued, rfl⟩
    have written := written_of_running fetched ran
    rw [shown] at written
    exact ⟨_, written, fun _ _ ended first => value_of_numeral ended first⟩

/-- The lowest integer, in a literal with zeros in front of its digits. -/
def lowest : Argument := ⟨.literal .int, "-0X008000000000000000"⟩

/-- What is written for it, on a line of input. -/
def lowestLine : List Char := "-9223372036854775808\r\n".toList

theorem lowest_integer_comes_back :
    let machine : Machine := ⟨⟨[⟨1, .write, [lowest]⟩], {}⟩, .accepting⟩
    let input : Input := ⟨Text.utf8 lowestLine ++ [255]⟩
    ((['-'], -1) ∈ signs ∧ (['0', 'X'], 16) ∈ radixMarks ∧
      Denotes 16 "8000000000000000".toList (2 ^ 63) ∧ Spells lowest.text.toList (-2 ^ 63)) ∧
    machine.code.fetch? 1 = some ⟨1, .write, [lowest]⟩ ∧
    ({} : Frames).valueOf lowest = .ok (.int Int64.minValue) ∧
    machine.step {} = .running { next := 2, written := ["-9223372036854775808"] } ∧
    input.rawLines.head? = some (Text.utf8 lowestLine) ∧
    input.value? .int = some (.int Int64.minValue) := by
  intro machine input
  obtain ⟨exact, _, zeros, _, comesBack⟩ := integer_literals_exact
  have denotes : Denotes 16 "8000000000000000".toList (2 ^ 63) :=
    ofDigits_some_iff.mp (by decide +kernel)
  have spells := zeros (['-'], -1) (by simp [signs]) (['0', 'X'], 16) (by simp [radixMarks]) _ _ 2
    denotes
  have read : parse? lowest.text = some Int64.minValue := (exact _ _).mpr spells
  have valued : ({} : Frames).valueOf lowest = .ok (.int Int64.minValue) := by
    have decoded : Argument.decode .int lowest.text = .ok (.int Int64.minValue) := by
      rw [Argument.decode, read]
    simp only [Frames.valueOf, Frames.slotOf, Argument.literal, lowest, reduceCtorEq, if_false]
    rw [show Argument.decode .int "-0X008000000000000000" = _ from decoded]
    rfl
  have ran : machine.step {} = .running { next := 2, written := ["-9223372036854775808"] } := by
    decide +kernel
  have first : input.rawLines.head? = some (Text.utf8 lowestLine) := by decide +kernel
  obtain ⟨_, written, back⟩ := comesBack machine {} _ 1 lowest _ rfl valued ran
  cases written
  exact ⟨⟨by simp [signs], by simp [radixMarks], denotes, spells⟩, rfl, valued, ran, first,
    back input ['\r', '\n'] (by simp [Input.lineEnds]) first⟩

end Framecode.Integer
