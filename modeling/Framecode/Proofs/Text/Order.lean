import Framecode.Proofs.Text.Bytes
import Mathlib.Algebra.Group.Nat.Defs
import Mathlib.Order.Defs.LinearOrder

/-! The order of texts. The bytes of a character are a mark with the highest bits of its code
point, and then groups of six bits, each in a byte of its own. A character with more groups has
a higher mark, and characters with equally many are told apart by the first group in which they
differ. So two texts are in the same order byte by byte as they are code point by code point,
also where they part inside a character. -/
namespace Framecode.Text

/-- The order of two texts by the bytes that encode them. -/
def byteOrder (left right : String) : Ordering :=
  compare left.toUTF8.data.toList right.toUTF8.data.toList

/-- The order of two texts by their code points. -/
def codePointOrder (left right : String) : Ordering :=
  compare (left.toList.map Char.toNat) (right.toList.map Char.toNat)

/-! ## Rows of bytes -/

/-- Two rows of bytes part at some byte, where the first row has the lower one. -/
inductive Below : List UInt8 → List UInt8 → Prop where
  | here {low high : UInt8} (less : low < high) (lower upper : List UInt8) :
      Below (low :: lower) (high :: upper)
  | behind (byte : UInt8) {lower upper : List UInt8} (below : Below lower upper) :
      Below (byte :: lower) (byte :: upper)

private theorem Below.append {lower upper : List UInt8} (below : Below lower upper)
    (more other : List UInt8) : Below (lower ++ more) (upper ++ other) := by
  induction below with
  | here less lower upper => exact .here less _ _
  | behind byte _ ih => exact .behind byte ih

private theorem Below.after {lower upper : List UInt8} (below : Below lower upper)
    (common : List UInt8) :
    Below (common ++ lower) (common ++ upper) := by
  induction common with
  | nil => exact below
  | cons byte common ih => exact .behind byte ih

/-- Where two rows part, they are in order, whatever comes behind. -/
theorem Below.compare_lt {lower upper : List UInt8} (below : Below lower upper) :
    compare lower upper = .lt := by
  induction below with
  | here less lower upper =>
    have first : compare _ _ = Ordering.lt := Std.compare_eq_lt.mpr less
    simp [first]
  | behind byte _ ih => simp [ih]

/-- A number in bytes: what is left of it above some groups of six bits, with a mark added, and
then the groups, the highest one first. -/
def row (mark : Nat) : Nat → Nat → List UInt8
  | 0, number => [UInt8.ofNat (number + mark)]
  | groups + 1, number => row mark groups (number / 64) ++ [UInt8.ofNat (number % 64 + 128)]

private theorem ofNat_lt_ofNat {low high : Nat} (less : low < high) (bound : high < 256) :
    UInt8.ofNat low < UInt8.ofNat high := by
  simp only [UInt8.lt_iff_toNat_lt, UInt8.toNat_ofNat']
  omega

private theorem row_eq_cons (mark groups number : Nat) :
    ∃ rest, row mark groups number = UInt8.ofNat (number / 64 ^ groups + mark) :: rest := by
  induction groups generalizing number with
  | zero => exact ⟨[], by simp [row]⟩
  | succ groups ih =>
    obtain ⟨rest, same⟩ := ih (number / 64)
    refine ⟨rest ++ [UInt8.ofNat (number % 64 + 128)], ?_⟩
    rw [row, same, Nat.div_div_eq_div_mul, ← Nat.pow_succ', List.cons_append]

/-- Numbers in equally many bytes with one mark are in the order of their rows. -/
theorem row_below {mark groups low high : Nat} (less : low < high)
    (bound : high / 64 ^ groups + mark < 256) :
    Below (row mark groups low) (row mark groups high) := by
  induction groups generalizing low high with
  | zero =>
    refine .here (ofNat_lt_ofNat ?_ ?_) [] []
    · omega
    · simpa using bound
  | succ groups ih =>
    rw [Nat.pow_succ', ← Nat.div_div_eq_div_mul] at bound
    by_cases same : low / 64 = high / 64
    · have last : UInt8.ofNat (low % 64 + 128) < UInt8.ofNat (high % 64 + 128) :=
        ofNat_lt_ofNat (by omega) (by omega)
      rw [row, row, same]
      exact (Below.here last [] []).after _
    · exact (ih (by omega) bound).append _ _

/-! ## The bytes of a character -/

/-- The number of groups of six bits in the bytes of a code point. -/
def groupsOf (number : Nat) : Nat :=
  if number ≤ 0x7F then 0 else if number ≤ 0x7FF then 1 else if number ≤ 0xFFFF then 2 else 3

/-- The mark of the first byte of a character, by the number of groups after it. -/
def markOf : Nat → Nat
  | 0 => 0
  | 1 => 0xC0
  | 2 => 0xE0
  | _ => 0xF0

theorem toNat_lt (c : Char) : c.toNat < 0x110000 := by
  have valid : c.toNat.isValidChar := c.valid
  rcases valid with low | high <;> omega

/-- A character is encoded as its code point in bytes, with the mark for its length. -/
theorem utf8EncodeChar_eq_row (c : Char) :
    String.utf8EncodeChar c = row (markOf (groupsOf c.toNat)) (groupsOf c.toNat) c.toNat := by
  have bound : c.val.toNat < 0x110000 := toNat_lt c
  fun_cases String.utf8EncodeChar c with
  | case1 number one =>
    have groups : groupsOf c.toNat = 0 := if_pos one
    simp only [groups, markOf, row]
    rfl
  | case2 number one two =>
    have groups : groupsOf c.toNat = 1 := (if_neg one).trans (if_pos two)
    have lead : number / 64 % 32 + 192 = number / 64 + 192 := by omega
    simp only [groups, markOf, row, lead]
    rfl
  | case3 number one two three =>
    have groups : groupsOf c.toNat = 2 := (if_neg one).trans ((if_neg two).trans (if_pos three))
    have lead : number / 4096 % 16 + 224 = number / 64 / 64 + 224 := by omega
    simp only [groups, markOf, row, lead]
    rfl
  | case4 number one two three =>
    have groups : groupsOf c.toNat = 3 := (if_neg one).trans ((if_neg two).trans (if_neg three))
    have lead : number / 262144 % 8 + 240 = number / 64 / 64 / 64 + 240 := by omega
    have second : number / 4096 % 64 + 128 = number / 64 / 64 % 64 + 128 := by omega
    simp only [groups, markOf, row, lead, second]
    rfl

/-- The lengths of code points in bytes, each with its range. -/
theorem groupsOf_cases (number : Nat) :
    groupsOf number = 0 ∧ number ≤ 0x7F ∨
    groupsOf number = 1 ∧ 0x7F < number ∧ number ≤ 0x7FF ∨
    groupsOf number = 2 ∧ 0x7FF < number ∧ number ≤ 0xFFFF ∨
    groupsOf number = 3 ∧ 0xFFFF < number := by
  unfold groupsOf
  split_ifs <;> omega

private theorem groupsOf_mono {low high : Nat} (le : low ≤ high) :
    groupsOf low ≤ groupsOf high := by
  have lower := groupsOf_cases low
  have upper := groupsOf_cases high
  omega

/-- The first byte of a character is one byte, and higher in a character that takes more. -/
theorem lead_lt {low high : Nat} (fewer : groupsOf low < groupsOf high) (bound : high < 0x110000) :
    low / 64 ^ groupsOf low + markOf (groupsOf low) <
      high / 64 ^ groupsOf high + markOf (groupsOf high) := by
  rcases groupsOf_cases low with ⟨same, _⟩ | ⟨same, _⟩ | ⟨same, _⟩ | ⟨same, _⟩ <;>
    rcases groupsOf_cases high with ⟨other, _⟩ | ⟨other, _⟩ | ⟨other, _⟩ | ⟨other, _⟩ <;>
    simp only [same, other, markOf] at fewer ⊢ <;> omega

private theorem lead_bound {number : Nat} (bound : number < 0x110000) :
    number / 64 ^ groupsOf number + markOf (groupsOf number) < 256 := by
  rcases groupsOf_cases number with ⟨same, _⟩ | ⟨same, _⟩ | ⟨same, _⟩ | ⟨same, _⟩ <;>
    simp only [same, markOf] <;> omega

/-- The bytes of two characters part, and they do so in the order of the code points. -/
theorem utf8EncodeChar_below {low high : Char} (less : low.toNat < high.toNat) :
    Below (String.utf8EncodeChar low) (String.utf8EncodeChar high) := by
  have bound := lead_bound (toNat_lt high)
  rw [utf8EncodeChar_eq_row, utf8EncodeChar_eq_row]
  rcases Nat.lt_or_eq_of_le (groupsOf_mono (Nat.le_of_lt less)) with fewer | same
  · obtain ⟨lower, lowRow⟩ :=
      row_eq_cons (markOf (groupsOf low.toNat)) (groupsOf low.toNat) low.toNat
    obtain ⟨upper, highRow⟩ :=
      row_eq_cons (markOf (groupsOf high.toNat)) (groupsOf high.toNat) high.toNat
    rw [lowRow, highRow]
    exact .here (ofNat_lt_ofNat (lead_lt fewer (toNat_lt high)) bound) lower upper
  · rw [same]
    exact row_below less bound

/-! ## The bytes of a text -/

private theorem utf8_cons (c : Char) (text : List Char) :
    utf8 (c :: text) = String.utf8EncodeChar c ++ utf8 text :=
  List.flatMap_cons

private theorem compare_append_left (common left right : List UInt8) :
    compare (common ++ left) (common ++ right) = compare left right := by
  induction common with
  | nil => rfl
  | cons byte common ih => simp [ih]

private theorem compare_nil_utf8_cons (c : Char) (text : List Char) :
    compare [] (utf8 (c :: text)) = .lt := by
  obtain ⟨byte, bytes, same⟩ := List.exists_cons_of_ne_nil (@String.utf8EncodeChar_ne_nil c)
  rw [utf8_cons, same, List.cons_append, List.compare_nil_cons]

/-- The bytes of two texts are in the order of their code points. The first characters that
differ decide: before them the bytes are the same, and there they part. -/
theorem compare_utf8 (left right : List Char) :
    compare (utf8 left) (utf8 right) = compare (left.map Char.toNat) (right.map Char.toNat) := by
  induction left generalizing right with
  | nil =>
    cases right with
    | nil => rfl
    | cons d right => exact compare_nil_utf8_cons d right
  | cons c left ih =>
    cases right with
    | nil =>
      exact Std.OrientedCmp.gt_of_lt (compare_nil_utf8_cons c left)
    | cons d right =>
      rw [List.map_cons, List.map_cons, List.compare_cons_cons]
      rcases Nat.lt_trichotomy c.toNat d.toNat with less | same | more
      · rw [Nat.compare_eq_lt.mpr less, utf8_cons, utf8_cons]
        exact ((utf8EncodeChar_below less).append _ _).compare_lt
      · rw [same, Char.toNat_inj.mp same, utf8_cons, utf8_cons, compare_append_left, ih]
        simp
      · rw [Nat.compare_eq_gt.mpr more, utf8_cons, utf8_cons]
        exact Std.OrientedCmp.gt_of_lt ((utf8EncodeChar_below more).append _ _).compare_lt

/-- Texts are in the same order byte by byte as they are code point by code point. -/
theorem byteOrder_eq_codePointOrder (left right : String) :
    byteOrder left right = codePointOrder left right := by
  have bytes : ∀ text : String, text.toUTF8.data.toList = utf8 text.toList := by
    intro text
    rw [String.toUTF8, toByteArray_eq_utf8]
  rw [byteOrder, bytes, bytes, compare_utf8, codePointOrder]

-- The first two share a byte, and the last two are the other way round in groups of 16 bits.
example : byteOrder "č" "ď" = .lt ∧ byteOrder "\uFFFD" "😀" = .lt := by decide

private theorem compare_char (c d : Char) : compare c.toNat d.toNat = compare c d := by
  have less : c < d ↔ c.toNat < d.toNat := Char.lt_def.trans UInt32.lt_iff_toNat_lt
  change compareOfLessAndEq _ _ = compareOfLessAndEq _ _
  simp only [compareOfLessAndEq, less, Char.toNat_inj]

theorem compare_toNat (left right : List Char) :
    compare (left.map Char.toNat) (right.map Char.toNat) = compare left right := by
  induction left generalizing right with
  | nil => cases right <;> rfl
  | cons c left ih =>
    cases right with
    | nil => rfl
    | cons d right => simp only [List.map_cons, List.compare_cons_cons, compare_char, ih]

end Framecode.Text
