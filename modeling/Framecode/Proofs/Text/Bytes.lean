import Mathlib.Data.List.Basic
import Mathlib.Data.List.Induction

/-! Bytes of texts. A text is written in UTF-8 one character after another. An ASCII
character is one byte, and no byte of any other character is the byte of an ASCII one, so a
text has a given ASCII character wherever its bytes have the byte of it. -/
namespace Framecode.Text

/-- The bytes of a text in UTF-8. -/
def utf8 (text : List Char) : List UInt8 := text.flatMap String.utf8EncodeChar

@[simp] theorem utf8_nil : utf8 [] = [] := rfl

@[simp] theorem utf8_append (text more : List Char) :
    utf8 (text ++ more) = utf8 text ++ utf8 more :=
  List.flatMap_append

theorem toByteArray_eq_utf8 (text : String) : text.toByteArray = ⟨(utf8 text.toList).toArray⟩ := by
  rw [← String.utf8Encode_toList, List.utf8Encode, utf8, ByteArray.ext_iff, List.data_toByteArray]

/-- Bytes are read as a text exactly when they are the bytes of that text. -/
theorem fromUTF8_some_iff {bytes : List UInt8} {text : String} :
    String.fromUTF8? ⟨bytes.toArray⟩ = some text ↔ bytes = utf8 text.toList := by
  constructor
  · intro read
    rw [String.fromUTF8?] at read
    split at read
    · cases read
      have same := toByteArray_eq_utf8 (String.fromUTF8 ⟨bytes.toArray⟩ ‹_›)
      exact List.toArray_inj (ByteArray.ext_iff.mp same)
    · cases read
  · rintro rfl
    rw [← toByteArray_eq_utf8, String.fromUTF8?, dif_pos text.isValidUTF8]
    rfl

/-- An ASCII character is the byte of its code point. -/
theorem utf8_ascii {c : Char} (low : c.toNat < 128) : String.utf8EncodeChar c = [c.toUInt8] := by
  have within : c.val.toNat ≤ 127 := Nat.le_of_lt_succ low
  rw [String.utf8EncodeChar]
  simp only [within, if_true]
  rfl

/-- Every byte of a character beyond ASCII is beyond ASCII. -/
theorem high_of_mem_utf8 {c : Char} (high : 128 ≤ c.toNat) {byte : UInt8}
    (member : byte ∈ String.utf8EncodeChar c) : 128 ≤ byte.toNat := by
  have beyond : ¬ c.val.toNat ≤ 127 := Nat.not_le.mpr high
  rw [String.utf8EncodeChar] at member
  simp only [beyond, if_false] at member
  have bound : ∀ value base : Nat, 128 ≤ base → value + base < 256 →
      128 ≤ (UInt8.ofNat (value + base)).toNat := by
    intro value base least most
    rw [UInt8.toNat_ofNat', Nat.mod_eq_of_lt most]
    omega
  split at member
  · simp only [List.mem_cons, List.not_mem_nil, or_false] at member
    rcases member with rfl | rfl <;> exact bound _ _ (by omega) (by omega)
  · split at member
    · simp only [List.mem_cons, List.not_mem_nil, or_false] at member
      rcases member with rfl | rfl | rfl <;> exact bound _ _ (by omega) (by omega)
    · simp only [List.mem_cons, List.not_mem_nil, or_false] at member
      rcases member with rfl | rfl | rfl | rfl <;> exact bound _ _ (by omega) (by omega)

/-- The byte of an ASCII character is a byte of that character only. -/
theorem mem_utf8EncodeChar_iff {c other : Char} (low : c.toNat < 128) :
    c.toUInt8 ∈ String.utf8EncodeChar other ↔ other = c := by
  have value : c.toUInt8.toNat = c.toNat := Nat.mod_eq_of_lt (by omega : c.toNat < 256)
  constructor
  · intro member
    by_cases high : 128 ≤ other.toNat
    · have beyond := high_of_mem_utf8 high member
      omega
    · have otherLow : other.toNat < 128 := Nat.not_le.mp high
      have otherValue : other.toUInt8.toNat = other.toNat :=
        Nat.mod_eq_of_lt (by omega : other.toNat < 256)
      rw [utf8_ascii otherLow, List.mem_singleton] at member
      refine Char.toNat_inj.mp ?_
      rw [← otherValue, ← value, member]
  · rintro rfl
    rw [utf8_ascii low]
    exact List.mem_singleton_self _

/-- A text has an ASCII character exactly where its bytes have the byte of it. -/
theorem mem_utf8_iff {c : Char} (low : c.toNat < 128) {text : List Char} :
    c.toUInt8 ∈ utf8 text ↔ c ∈ text := by
  simp only [utf8, List.mem_flatMap, mem_utf8EncodeChar_iff low, exists_eq_right]

/-- A text ends with an ASCII character exactly when its bytes end with the byte of it. -/
theorem getLast_utf8_iff {c : Char} (low : c.toNat < 128) {text : List Char} :
    (utf8 text).getLast? = some c.toUInt8 ↔ text.getLast? = some c := by
  induction text using List.reverseRecOn with
  | nil => simp
  | append_singleton text last =>
    have one : utf8 [last] = String.utf8EncodeChar last := List.flatMap_singleton _ last
    rw [utf8_append, one, List.getLast?_append_of_ne_nil _ String.utf8EncodeChar_ne_nil,
      List.getLast?_concat, Option.some.injEq]
    constructor
    · intro ends
      exact (mem_utf8EncodeChar_iff low).mp (List.mem_of_getLast? ends)
    · rintro rfl
      rw [utf8_ascii low]
      rfl

/-- An ASCII character at the end of a text is one byte at the end of its bytes. -/
theorem dropLast_utf8 {c : Char} (low : c.toNat < 128) {text : List Char}
    (ends : text.getLast? = some c) : (utf8 text).dropLast = utf8 text.dropLast := by
  obtain ⟨before, rfl⟩ := List.getLast?_eq_some_iff.mp ends
  have one : utf8 [c] = [c.toUInt8] := by rw [utf8, List.flatMap_singleton, utf8_ascii low]
  rw [utf8_append, one, List.dropLast_concat, List.dropLast_concat]

end Framecode.Text
