import Framecode.Literal.Integer

/-! Decimal numerals of natural numbers. A number comes back from its numeral, since
reading one more digit is what writing one more digit undoes. -/
namespace Framecode.Integer

private theorem readDigits_append_singleton (radix number : Nat) (digits : List Char) (c : Char) :
    readDigits? radix number (digits ++ [c]) =
      (readDigits? radix number digits).bind fun before =>
        (digitIn? radix c).map fun digit => before * radix + digit := by
  induction digits generalizing number with
  | nil =>
    rw [List.nil_append, readDigits?, readDigits?, Option.bind_some]
    cases digitIn? radix c with
    | none => rfl
    | some digit => rfl
  | cons first rest ih =>
    rw [List.cons_append, readDigits?, readDigits?]
    cases digitIn? radix first with
    | none => rfl
    | some digit => exact ih (number * radix + digit)

private theorem digitIn_digitChar {digit : Nat} (small : digit < 10) :
    digitIn? 10 digit.digitChar = some digit := by
  have all : ∀ digit < 10, digitIn? 10 digit.digitChar = some digit := by decide
  exact all digit small

theorem readDigits_numeral (number : Nat) :
    readDigits? 10 0 (Nat.toDigits 10 number) = some number := by
  induction number using Nat.strongRecOn with
  | ind number ih =>
    by_cases small : number < 10
    · rw [Nat.toDigits_of_lt_base small]
      have single := readDigits_append_singleton 10 0 [] number.digitChar
      rw [List.nil_append, digitIn_digitChar small] at single
      rw [single]
      simp [readDigits?]
    · have large : 10 ≤ number := by omega
      rw [Nat.toDigits_of_base_le (by decide) large, readDigits_append_singleton,
        ih (number / 10) (by omega), digitIn_digitChar (Nat.mod_lt _ (by decide))]
      simp only [Option.bind_some, Option.map_some, Option.some.injEq]
      omega

private theorem numeral_toList (number : Nat) : (toString number).toList = Nat.toDigits 10 number :=
  Nat.toList_repr

theorem numeral_digit {number : Nat} {c : Char} (member : c ∈ (toString number).toList) :
    0x30 ≤ c.toNat ∧ c.toNat ≤ 0x39 := by
  rw [numeral_toList] at member
  have digit := Nat.isDigit_of_mem_toDigits (by decide) (by decide) member
  simp only [Char.isDigit, Bool.and_eq_true, decide_eq_true_eq] at digit
  exact digit

/-- A number comes back from its decimal numeral. -/
theorem natural_numeral (number : Nat) : natural? (toString number).toList = some number := by
  have digits := @numeral_digit number
  rw [numeral_toList] at digits ⊢
  have read : ofDigits? 10 (Nat.toDigits 10 number) = some number := by
    rw [ofDigits?, if_neg (by simp [Nat.toDigits_ne_nil]), readDigits_numeral]
  unfold natural?
  split
  · rename_i signed
    have sign := digits (signed ▸ List.mem_cons_self)
    exact absurd sign (by decide)
  · exact read

/-- A plain decimal spelling of a number: one digit or more, leading zeros included, perhaps
after a plus sign. -/
def Decimal (text : List Char) (number : Nat) : Prop :=
  ∃ digits, (text = digits ∨ text = '+' :: digits) ∧ digits ≠ [] ∧
    (∀ c ∈ digits, c.isDigit = true) ∧ Nat.ofDigitChars 10 digits 0 = number

private theorem digitIn_decimal (c : Char) :
    digitIn? 10 c = if c.isDigit then some (c.toNat - '0'.toNat) else none := by
  have digit : c.isDigit = true ↔ '0' ≤ c ∧ c ≤ '9' := by
    simp only [Char.isDigit, Bool.and_eq_true, decide_eq_true_eq]
    rfl
  by_cases inside : '0' ≤ c ∧ c ≤ '9'
  · have high : c.toNat ≤ '9'.toNat := inside.2
    have small : c.toNat - '0'.toNat < 10 := by
      change c.toNat ≤ 57 at high
      change c.toNat - 48 < 10
      omega
    rw [if_pos (digit.mpr inside), digitIn?, digitValue?, if_pos inside, Option.filter_some,
      if_pos (decide_eq_true small)]
  · -- Any other digit stands for ten at least.
    rw [if_neg (mt digit.mp inside), digitIn?, digitValue?, if_neg inside]
    split
    · rw [Option.filter_some, if_neg (by simp)]
    · split
      · rw [Option.filter_some, if_neg (by simp)]
      · rfl

private theorem readDigits_decimal_iff {digits : List Char} {start number : Nat} :
    readDigits? 10 start digits = some number ↔
      (∀ c ∈ digits, c.isDigit = true) ∧ Nat.ofDigitChars 10 digits start = number := by
  induction digits generalizing start with
  | nil => simp [readDigits?, Nat.ofDigitChars]
  | cons c rest ih =>
    rw [readDigits?, digitIn_decimal, Nat.ofDigitChars_cons, List.forall_mem_cons]
    by_cases digit : c.isDigit = true
    · simp only [digit, if_true, ih, true_and, Nat.mul_comm start 10]
    · simp [digit]

/-- Reading a plain number accepts exactly its decimal spellings. -/
theorem natural_some_iff {text : List Char} {number : Nat} :
    natural? text = some number ↔ Decimal text number := by
  have digitsOnly : ∀ digits, ofDigits? 10 digits = some number ↔
      digits ≠ [] ∧ (∀ c ∈ digits, c.isDigit = true) ∧ Nat.ofDigitChars 10 digits 0 = number := by
    intro digits
    rw [ofDigits?]
    cases digits with
    | nil => simp
    | cons c rest => simp [readDigits_decimal_iff]
  unfold natural?
  split
  · rename_i digits
    rw [digitsOnly]
    constructor
    · rintro ⟨filled, all, value⟩
      exact ⟨digits, .inr rfl, filled, all, value⟩
    · rintro ⟨others, same | same, filled, all, value⟩
      · -- A sign is no digit.
        subst same
        exact absurd (all '+' List.mem_cons_self) (by decide)
      · cases same
        exact ⟨filled, all, value⟩
  · rename_i unsigned
    rw [digitsOnly]
    constructor
    · rintro ⟨filled, all, value⟩
      exact ⟨text, .inl rfl, filled, all, value⟩
    · rintro ⟨digits, same | same, filled, all, value⟩
      · subst same
        exact ⟨filled, all, value⟩
      · exact absurd same (unsigned digits)

end Framecode.Integer
