import Framecode.Proofs.Source.Grammar
import Mathlib.Data.Bool.AllAny

/-! Words hold nothing that separates words. A blank ends a word and a number sign ends
a line, so what a listing writes as one word is read as one word only if it holds
neither. The characters of words are a table of their own, of letters, numerals and a few
marks, which is compared with the table of blanks range by range. -/
namespace Framecode.Source

/-- A character that neither ends a word nor starts a comment. -/
def Plain (c : Char) : Prop := Text.isBlank c = false ∧ c ≠ '#'

/-- The code points that separate words or lines: the blanks and the number sign. -/
def separatorRanges : List (Nat × Nat) := (0x23, 0x23) :: Text.blankRanges

/-- Whether no range of one table meets a range of another. -/
def apart (table other : List (Nat × Nat)) : Bool :=
  table.all fun range => other.all fun avoided => range.2 < avoided.1 || avoided.2 < range.1

theorem not_inRanges_of_apart {table other : List (Nat × Nat)} {c : Char}
    (separate : apart table other = true) (inside : Text.inRanges table c = true) :
    Text.inRanges other c = false := by
  rw [Text.inRanges, List.any_eq_true] at inside
  obtain ⟨range, member, bounds⟩ := inside
  rw [Text.inRanges, List.any_eq_false]
  intro avoided avoidedMember
  have gap := List.all_eq_true.mp (List.all_eq_true.mp separate range member) avoided avoidedMember
  simp only [Bool.and_eq_true, Bool.or_eq_true, decide_eq_true_eq] at bounds gap ⊢
  omega

private theorem plain_iff {c : Char} : Plain c ↔ Text.inRanges separatorRanges c = false := by
  have sign : c = '#' ↔ 0x23 ≤ c.toNat ∧ c.toNat ≤ 0x23 := by
    rw [← Char.toNat_inj]
    simp only [Char.reduceToNat]
    omega
  simp only [Plain, Text.isBlank, Text.inRanges, separatorRanges, List.any_cons,
    Bool.or_eq_false_iff, Bool.and_eq_false_imp, decide_eq_true_eq, decide_eq_false_iff_not]
  tauto

instance (c : Char) : Decidable (Plain c) := inferInstanceAs (Decidable (_ ∧ _))

/-! ## Characters of words -/

/-- The ASCII characters that words hold besides the marks of names: signs and digits of
integers, the at sign, and the letters that name frames, types and truth values. -/
def asciiRanges : List (Nat × Nat) :=
  [(0x2B, 0x2B), (0x2D, 0x2D), (0x30, 0x39), (0x40, 0x5A), (0x61, 0x7A)]

/-- The code points of `nameMarks`. -/
def markRanges : List (Nat × Nat) := nameMarks.map fun c => (c.toNat, c.toNat)

/-- The code points that words are made of, the texts of strings apart. -/
def wordRanges : List (Nat × Nat) :=
  asciiRanges ++ markRanges ++ Text.lowLetterRanges ++ Text.middleLetterRanges ++
    Text.highLetterRanges ++ Text.lowNumeralRanges ++ Text.highNumeralRanges

/-- A character that words are made of. -/
def InWord (c : Char) : Prop := Text.inRanges wordRanges c = true

private theorem inWord_iff {c : Char} : InWord c ↔ Text.inRanges asciiRanges c = true ∨
    Text.inRanges markRanges c = true ∨ Text.isLetter c = true ∨ Text.isNumeral c = true := by
  simp only [InWord, Text.inRanges, wordRanges, Text.isLetter, Text.isNumeral, List.any_append,
    Bool.or_eq_true]
  tauto

private theorem inWord_of_ascii {c : Char} (ascii : Text.inRanges asciiRanges c = true) :
    InWord c :=
  inWord_iff.mpr (.inl ascii)

/-- Texts of ASCII words hold no other characters. -/
theorem inWord_of_asciiText {text : List Char}
    (ascii : text.all (Text.inRanges asciiRanges) = true) : ∀ c ∈ text, InWord c :=
  fun c member => inWord_of_ascii (List.all_eq_true.mp ascii c member)

private theorem inWord_of_mark {c : Char} (mark : c ∈ nameMarks) : InWord c := by
  refine inWord_iff.mpr (.inr (.inl ?_))
  rw [Text.inRanges, markRanges, List.any_map, List.any_eq_true]
  exact ⟨c, mark, by simp⟩

/-- No character of a word separates words or lines. -/
theorem inWord_plain {c : Char} (inside : InWord c) : Plain c :=
  plain_iff.mpr (not_inRanges_of_apart (by decide +kernel) inside)

theorem identifier_inWord {name : List Char} (named : Identifier name) : ∀ c ∈ name, InWord c := by
  obtain ⟨first, rest, rfl, starts, continues⟩ := named
  intro c member
  rcases List.mem_cons.mp member with rfl | later
  · rcases starts with letter | mark
    · exact inWord_iff.mpr (.inr (.inr (.inl letter)))
    · exact inWord_of_mark mark
  · rcases continues c later with letter | numeral | mark
    · exact inWord_iff.mpr (.inr (.inr (.inl letter)))
    · exact inWord_iff.mpr (.inr (.inr (.inr numeral)))
    · exact inWord_of_mark mark

/-- An identifier is not empty and holds no separator. -/
theorem identifier_plain {name : List Char} (named : Identifier name) :
    name ≠ [] ∧ ∀ c ∈ name, Plain c := by
  refine ⟨?_, fun c member => inWord_plain (identifier_inWord named c member)⟩
  obtain ⟨first, rest, rfl, _⟩ := named
  exact List.cons_ne_nil first rest

/-! ## Integer literals -/

private theorem digit_inWord {radix digit : Nat} {c : Char}
    (read : Integer.digitIn? radix c = some digit) : InWord c := by
  apply inWord_of_ascii
  obtain ⟨value, _⟩ := Option.filter_eq_some_iff.mp read
  unfold Integer.digitValue? at value
  simp only [Char.le_def, UInt32.le_iff_toNat_le] at value
  simp only [Text.inRanges, asciiRanges, List.any_cons, List.any_nil, Bool.or_false,
    Bool.or_eq_true, Bool.and_eq_true, decide_eq_true_eq]
  split at value
  · rename_i bounds
    exact .inr (.inr (.inl bounds))
  · split at value
    · rename_i bounds
      exact .inr (.inr (.inr (.inr ⟨bounds.1, Nat.le_trans bounds.2 (by decide)⟩)))
    · split at value
      · rename_i bounds
        exact .inr (.inr (.inr (.inl ⟨Nat.le_trans (by decide) bounds.1,
          Nat.le_trans bounds.2 (by decide)⟩)))
      · cases value

private theorem digits_inWord {radix number result : Nat} {digits : List Char}
    (read : Integer.readDigits? radix number digits = some result) : ∀ c ∈ digits, InWord c := by
  induction digits generalizing number with
  | nil => simp
  | cons c rest ih =>
    rw [Integer.readDigits?] at read
    split at read
    · rename_i digit first
      exact List.forall_mem_cons.mpr ⟨digit_inWord first, ih read⟩
    · cases read

private theorem ofDigits_inWord {radix result : Nat} {digits : List Char}
    (read : Integer.ofDigits? radix digits = some result) : ∀ c ∈ digits, InWord c := by
  unfold Integer.ofDigits? at read
  split at read
  · cases read
  · exact digits_inWord read

/-- What follows some ASCII characters of a word. -/
theorem inWord_behind {lead rest : List Char} (ascii : lead.all (Text.inRanges asciiRanges) = true)
    (others : ∀ c ∈ rest, InWord c) : ∀ c ∈ lead ++ rest, InWord c :=
  List.forall_mem_append.mpr ⟨inWord_of_asciiText ascii, others⟩

private theorem magnitude_inWord {digits : List Char} {result : Nat}
    (read : Integer.magnitude? digits = some result) : ∀ c ∈ digits, InWord c := by
  unfold Integer.magnitude? at read
  split at read
  · exact @inWord_behind ['0', 'x'] _ (by decide) (ofDigits_inWord read)
  · exact @inWord_behind ['0', 'X'] _ (by decide) (ofDigits_inWord read)
  · exact @inWord_behind ['0', 'o'] _ (by decide) (ofDigits_inWord read)
  · exact @inWord_behind ['0', 'O'] _ (by decide) (ofDigits_inWord read)
  · exact ofDigits_inWord read

theorem integer_inWord {text : String} {number : Int64} (read : Integer.parse? text = some number) :
    ∀ c ∈ text.toList, InWord c := by
  obtain ⟨value, read, _⟩ := Option.bind_eq_some_iff.mp read
  unfold Integer.number? at read
  split at read
  · rename_i rest whole
    obtain ⟨magnitude, read, _⟩ := Option.map_eq_some_iff.mp read
    exact whole ▸ @inWord_behind ['+'] _ (by decide) (magnitude_inWord read)
  · rename_i rest whole
    obtain ⟨magnitude, read, _⟩ := Option.map_eq_some_iff.mp read
    exact whole ▸ @inWord_behind ['-'] _ (by decide) (magnitude_inWord read)
  · obtain ⟨magnitude, read, _⟩ := Option.map_eq_some_iff.mp read
    exact magnitude_inWord read

/-! ## Words -/

/-- A word that can stand in a line: it is not empty and holds no separator. -/
def PlainWord (word : String) : Prop := word.toList ≠ [] ∧ ∀ c ∈ word.toList, Plain c

instance (word : String) : Decidable (PlainWord word) :=
  @instDecidableAnd _ _ inferInstance (List.decidableBAll Plain word.toList)

theorem header_plain : PlainWord header := by decide

theorem mnemonic_plain (opcode : Opcode) : PlainWord opcode.mnemonic := by
  cases opcode <;> decide

theorem type_name_word (type : ValueType) : PlainWord type.name := by
  cases type <;> decide

private theorem mark_word (role : FrameRole) : PlainWord role.mark := by
  cases role <;> decide

/-- The text of a literal is made of characters of words, strings apart. -/
theorem literal_inWord {type : ValueType} {text : String} (spelled : LiteralText type text)
    (other : type ≠ .string) : ∀ c ∈ text.toList, InWord c := by
  cases type with
  | int =>
    obtain ⟨number, read⟩ := spelled
    exact integer_inWord read
  | bool =>
    rcases spelled with rfl | rfl
    · exact inWord_of_asciiText (by decide)
    · exact inWord_of_asciiText (by decide)
  | string => contradiction
  | nil =>
    cases spelled
    exact inWord_of_asciiText (by decide)

/-- The text of a literal holds no separator, strings apart. -/
theorem literal_plain {type : ValueType} {text : String} (spelled : LiteralText type text)
    (other : type ≠ .string) : ∀ c ∈ text.toList, Plain c :=
  fun c member => inWord_plain (literal_inWord spelled other c member)

/-- A word with an at sign between two parts is plain when both parts are. -/
theorem marked_word_plain {lead text : String} (leading : PlainWord lead)
    (following : ∀ c ∈ text.toList, Plain c) : PlainWord (lead ++ "@" ++ text) := by
  simp only [PlainWord, String.toList_append, List.append_assoc]
  refine ⟨by simp [leading.1], fun c member => ?_⟩
  rcases List.mem_append.mp member with inLead | inRest
  · exact leading.2 c inLead
  · rcases List.mem_append.mp inRest with sign | inText
    · rw [List.mem_singleton.mp sign]
      decide
    · exact following c inText

theorem variable_plain {word : String} (named : VariableWord word) : PlainWord word := by
  obtain ⟨role, name, rfl, identifier⟩ := named
  exact marked_word_plain (mark_word role) (identifier_plain identifier).2

theorem variable_inWord {word : String} (named : VariableWord word) :
    ∀ c ∈ word.toList, InWord c := by
  obtain ⟨role, name, rfl, identifier⟩ := named
  rw [String.toList_append]
  refine inWord_behind ?_ (identifier_inWord identifier)
  cases role <;> decide

end Framecode.Source
