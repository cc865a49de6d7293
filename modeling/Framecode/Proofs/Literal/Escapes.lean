import Framecode.Literal.Escape
import Mathlib.Data.List.Forall2

/-! Escapes, said for each backslash by itself. Decoding goes through a text from left to right
and takes the digits of an escape along with its backslash; here every position of the text is
looked at alone. A text can be decoded when three digits follow each of its backslashes, whatever
stands elsewhere, and then every position that is not one of these digits stands for one
character. -/
namespace Framecode.Escape

/-! ## The local view -/

/-- What follows a backslash starts with three digits. -/
def Opens (following : List Char) : Prop :=
  3 ≤ following.length ∧ ∀ c ∈ following.take 3, c.isDigit = true

/-- Three digits follow every backslash of a text. -/
def WellEscaped (text : List Char) : Prop :=
  ∀ index, text[index]? = some '\\' → Opens (text.drop (index + 1))

/-- Whether one of the three characters before a position is a backslash. -/
def isBehind (text : List Char) (index : Nat) : Bool :=
  ((text.take index).drop (index - 3)).contains '\\'

/-- The positions of a text that are not behind a backslash, in order. -/
def starts (text : List Char) : List Nat :=
  (List.range text.length).filter fun index => !isBehind text index

/-- What a position stands for: a backslash for the character whose code the next three digits
are, and any other character for itself. -/
def Stands (text : List Char) (index : Nat) (c : Char) : Prop :=
  (text[index]? = some c ∧ c ≠ '\\') ∨
    (text[index]? = some '\\' ∧
      c.toNat = Nat.ofDigitChars 10 ((text.drop (index + 1)).take 3) 0)

/-! ## The view from left to right -/

/-- Texts and what they are decoded to, one character or one escape after another. -/
inductive Decodes : List Char → List Char → Prop where
  | nil : Decodes [] []
  | plain {c : Char} {text decoded : List Char} (other : c ≠ '\\') (rest : Decodes text decoded) :
      Decodes (c :: text) (c :: decoded)
  | escape {hundreds tens units named : Char} {text decoded : List Char}
      (digits : ∀ c ∈ [hundreds, tens, units], c.isDigit = true)
      (code : named.toNat = Nat.ofDigitChars 10 [hundreds, tens, units] 0)
      (rest : Decodes text decoded) :
      Decodes ('\\' :: hundreds :: tens :: units :: text) (named :: decoded)

private theorem decimal_eq (c : Char) :
    decimal? c = if c.isDigit then some (c.toNat - '0'.toNat) else none := by
  have digit : c.isDigit = true ↔ '0' ≤ c ∧ c ≤ '9' := by
    simp only [Char.isDigit, Bool.and_eq_true, decide_eq_true_eq]
    rfl
  simp only [decimal?, digit]

theorem code_of_digits (hundreds tens units : Char) :
    Nat.ofDigitChars 10 [hundreds, tens, units] 0 = 100 * (hundreds.toNat - '0'.toNat) +
      10 * (tens.toNat - '0'.toNat) + (units.toNat - '0'.toNat) := by
  simp only [Nat.ofDigitChars_cons, Nat.ofDigitChars_nil]
  omega

/-- Three digits are the code of a character: no code below 1000 is left out. -/
theorem code_le {hundreds tens units : Char}
    (digits : ∀ c ∈ [hundreds, tens, units], c.isDigit = true) :
    Nat.ofDigitChars 10 [hundreds, tens, units] 0 ≤ 999 := by
  have bound : ∀ c ∈ [hundreds, tens, units], c.toNat - '0'.toNat ≤ 9 := by
    intro c member
    have digit := digits c member
    simp only [Char.isDigit, Bool.and_eq_true, decide_eq_true_eq] at digit
    have high : c.toNat ≤ 57 := digit.2
    change c.toNat - 48 ≤ 9
    omega
  have first := bound hundreds (by simp)
  have second := bound tens (by simp)
  have third := bound units (by simp)
  rw [code_of_digits]
  omega

private theorem ofCode_some_iff {code : Nat} {c : Char} :
    ofCode? code = some c ↔ c.toNat = code := by
  rw [ofCode?, Option.ite_none_right_eq_some, Option.some.injEq]
  constructor
  · rintro ⟨valid, rfl⟩
    rw [Char.ofNat, dif_pos valid]
    rfl
  · rintro rfl
    exact ⟨c.valid, Char.ofNat_toNat c⟩

/-- Three characters name a character exactly when they are the digits of its code. -/
theorem character_some_iff {hundreds tens units named : Char} :
    character? hundreds tens units = some named ↔
      (∀ c ∈ [hundreds, tens, units], c.isDigit = true) ∧
        named.toNat = Nat.ofDigitChars 10 [hundreds, tens, units] 0 := by
  simp only [character?, Option.bind_eq_bind, Option.bind_eq_some_iff, decimal_eq,
    Option.ite_none_right_eq_some, Option.some.injEq, ofCode_some_iff, code_of_digits,
    List.forall_mem_cons, List.not_mem_nil, false_implies, implies_true, and_true]
  constructor
  · rintro ⟨_, ⟨first, rfl⟩, _, ⟨second, rfl⟩, _, ⟨third, rfl⟩, code⟩
    exact ⟨⟨first, second, third⟩, code⟩
  · rintro ⟨⟨first, second, third⟩, code⟩
    exact ⟨_, ⟨first, rfl⟩, _, ⟨second, rfl⟩, _, ⟨third, rfl⟩, code⟩

/-- Three digits always name a character. -/
theorem named_of_digits {hundreds tens units : Char}
    (digits : ∀ c ∈ [hundreds, tens, units], c.isDigit = true) :
    ∃ named, character? hundreds tens units = some named := by
  have low := code_le digits
  have found : ofCode? (Nat.ofDigitChars 10 [hundreds, tens, units] 0) = some _ :=
    if_pos (Or.inl (by omega))
  exact ⟨_, character_some_iff.mpr ⟨digits, ofCode_some_iff.mp found⟩⟩

private theorem decode_plain {c : Char} (other : c ≠ '\\') (rest : List Char) :
    decode (c :: rest) = (decode rest).map (c :: ·) := by
  rw [decode.eq_def]
  simp only [other, if_false]

private theorem decode_escape {hundreds tens units named : Char}
    (found : character? hundreds tens units = some named) (rest : List Char) :
    decode ('\\' :: hundreds :: tens :: units :: rest) = (decode rest).map (named :: ·) := by
  rw [decode, if_pos rfl, found]

theorem decode_some_iff {text decoded : List Char} :
    decode text = some decoded ↔ Decodes text decoded := by
  constructor
  · intro done
    fun_induction decode text generalizing decoded with
    | case1 =>
      cases done
      exact .nil
    | case2 hundreds tens units after named found ih =>
      obtain ⟨others, later, rfl⟩ := Option.map_eq_some_iff.mp done
      obtain ⟨digits, code⟩ := character_some_iff.mp found
      exact .escape digits code (ih later)
    | case3 => cases done
    | case4 => cases done
    | case5 c rest other ih =>
      obtain ⟨others, later, rfl⟩ := Option.map_eq_some_iff.mp done
      exact .plain other (ih later)
  · intro decodes
    induction decodes with
    | nil => rfl
    | plain other rest ih => rw [decode_plain other, ih, Option.map_some]
    | escape digits code rest ih =>
      rw [decode_escape (character_some_iff.mpr ⟨digits, code⟩), ih, Option.map_some]

/-- What is decoded first does not depend on what follows, and what follows is decoded as if it
stood alone. -/
theorem decode_append {first second decoded : List Char} (done : decode first = some decoded) :
    decode (first ++ second) = (decode second).map (decoded ++ ·) := by
  rw [decode_some_iff] at done
  induction done with
  | nil => simp
  | plain other rest ih =>
    rw [List.cons_append, decode_plain other, ih, Option.map_map]
    rfl
  | escape digits code rest ih =>
    simp only [List.cons_append]
    rw [decode_escape (character_some_iff.mpr ⟨digits, code⟩), ih, Option.map_map]
    rfl

private theorem ne_backslash_of_digit {c : Char} (digit : c.isDigit = true) : c ≠ '\\' := by
  rintro rfl
  cases digit

/-- An escape is three characters longer than what it stands for. -/
theorem length_of_decodes {text decoded : List Char} (decodes : Decodes text decoded) :
    decoded.length + 3 * text.count '\\' = text.length := by
  induction decodes with
  | nil => rfl
  | plain other rest ih =>
    rw [List.count_cons_of_ne other, List.length_cons, List.length_cons]
    omega
  | escape digits code rest ih =>
    simp only [List.forall_mem_cons] at digits
    rw [List.count_cons_self, List.count_cons_of_ne (ne_backslash_of_digit digits.1),
      List.count_cons_of_ne (ne_backslash_of_digit digits.2.1),
      List.count_cons_of_ne (ne_backslash_of_digit digits.2.2.1)]
    simp only [List.length_cons]
    omega

/-! ## Each backslash by itself -/

private theorem wellEscaped_plain {c : Char} (other : c ≠ '\\') {text : List Char} :
    WellEscaped (c :: text) ↔ WellEscaped text := by
  constructor
  · intro well index backslash
    exact well (index + 1) backslash
  · intro well index backslash
    cases index with
    | zero => exact absurd (Option.some.inj backslash) other
    | succ index => exact well index backslash

/-- The digits behind a backslash hold no backslash that would have to be looked at. -/
theorem wellEscaped_escape {text : List Char} :
    WellEscaped ('\\' :: text) ↔ ∃ hundreds tens units rest,
      text = hundreds :: tens :: units :: rest ∧
      (∀ c ∈ [hundreds, tens, units], c.isDigit = true) ∧ WellEscaped rest := by
  constructor
  · intro well
    obtain ⟨long, digits⟩ : Opens text := well 0 rfl
    match text with
    | hundreds :: tens :: units :: rest =>
      refine ⟨hundreds, tens, units, rest, rfl, digits, fun index backslash => ?_⟩
      exact well (index + 4) backslash
    | [] | [_] | [_, _] => simp at long
  · rintro ⟨hundreds, tens, units, rest, rfl, digits, well⟩ index backslash
    have plain : ∀ c ∈ [hundreds, tens, units], c ≠ '\\' :=
      fun c member => ne_backslash_of_digit (digits c member)
    match index with
    | 0 => exact ⟨by simp, digits⟩
    | 1 => exact absurd (Option.some.inj backslash) (plain hundreds (by simp))
    | 2 => exact absurd (Option.some.inj backslash) (plain tens (by simp))
    | 3 => exact absurd (Option.some.inj backslash) (plain units (by simp))
    | index + 4 => exact well index backslash

/-- The scan from left to right comes through exactly when each backslash passes by itself. -/
theorem decodes_iff_wellEscaped (text : List Char) :
    (∃ decoded, Decodes text decoded) ↔ WellEscaped text := by
  constructor
  · rintro ⟨decoded, decodes⟩
    induction decodes with
    | nil => exact fun index backslash => by cases backslash
    | plain other rest ih => exact (wellEscaped_plain other).mpr ih
    | escape digits code rest ih => exact wellEscaped_escape.mpr ⟨_, _, _, _, rfl, digits, ih⟩
  · intro well
    -- An escape takes four characters at once, so the induction is on the length.
    induction size : text.length using Nat.strongRecOn generalizing text with
    | ind size ih =>
      cases text with
      | nil => exact ⟨[], .nil⟩
      | cons c rest =>
        by_cases backslash : c = '\\'
        · subst backslash
          obtain ⟨hundreds, tens, units, after, rfl, digits, later⟩ := wellEscaped_escape.mp well
          obtain ⟨named, found⟩ := named_of_digits digits
          simp only [List.length_cons] at size
          obtain ⟨decoded, decodes⟩ := ih _ (by omega) after later rfl
          exact ⟨named :: decoded, .escape digits (character_some_iff.mp found).2 decodes⟩
        · rw [List.length_cons] at size
          have later := (wellEscaped_plain backslash).mp well
          obtain ⟨decoded, decodes⟩ := ih _ (by omega) rest later rfl
          exact ⟨c :: decoded, .plain backslash decodes⟩

/-! ## Each position by itself -/

private theorem isBehind_zero (text : List Char) : isBehind text 0 = false := rfl

private theorem isBehind_cons (c : Char) (text : List Char) (index : Nat) :
    isBehind (c :: text) (index + 1) = (decide (index < 3 ∧ c = '\\') || isBehind text index) := by
  unfold isBehind
  by_cases near : index < 3
  · have none : index + 1 - 3 = 0 := by omega
    have noneToo : index - 3 = 0 := by omega
    simp [none, noneToo, near, eq_comm]
  · have one : index + 1 - 3 = index - 3 + 1 := by omega
    simp [one, near]

private theorem isBehind_plain {c : Char} (other : c ≠ '\\') (text : List Char) (index : Nat) :
    isBehind (c :: text) (index + 1) = isBehind text index := by
  simp [isBehind_cons, other]

/-- A row of characters of which only the first one is a position of its own comes before the
positions of the text that follows. -/
theorem starts_row {row text : List Char} (filled : 0 < row.length)
    (inside : ∀ index, index + 1 < row.length → isBehind (row ++ text) (index + 1) = true)
    (after : ∀ index, isBehind (row ++ text) (row.length + index) = isBehind text index) :
    starts (row ++ text) = 0 :: (starts text).map (row.length + ·) := by
  obtain ⟨more, size⟩ : ∃ more, row.length = more + 1 := ⟨row.length - 1, by omega⟩
  have first : (List.range row.length).filter (fun index => !isBehind (row ++ text) index) =
      [0] := by
    rw [size, List.range_succ_eq_map, List.filter_cons_of_pos (by simp [isBehind_zero]),
      List.filter_map, List.filter_eq_nil_iff.mpr, List.map_nil]
    intro index member
    have low := List.mem_range.mp member
    simp [inside index (by omega)]
  have later : (fun index => !isBehind (row ++ text) index) ∘ (row.length + ·) =
      fun index => !isBehind text index := by
    funext index
    simp only [Function.comp, after]
  rw [starts, List.length_append, List.range_add, List.filter_append, first, List.filter_map, later]
  rfl

/-- A position of a text stands for the same whatever stands before the text. -/
theorem stands_behind {row text : List Char} {index : Nat} {c : Char} :
    Stands (row ++ text) (row.length + index) c ↔ Stands text index c := by
  have character : (row ++ text)[row.length + index]? = text[index]? := by
    rw [List.getElem?_append_right (by omega), Nat.add_sub_cancel_left]
  have following : (row ++ text).drop (row.length + index + 1) = text.drop (index + 1) := by
    rw [Nat.add_assoc, List.drop_length_add_append]
  rw [Stands, Stands, character, following]

private theorem stands_unique {text : List Char} : Relator.RightUnique (Stands text) := by
  rintro index c c' (⟨here, other⟩ | ⟨here, code⟩) (⟨hereToo, otherToo⟩ | ⟨hereToo, codeToo⟩)
  · exact Option.some.inj (here.symm.trans hereToo)
  · exact absurd (Option.some.inj (here.symm.trans hereToo)) other
  · exact absurd (Option.some.inj (hereToo.symm.trans here)) otherToo
  · exact Char.toNat_inj.mp (code.trans codeToo.symm)

/-- When one character or one escape goes in front, all other positions move behind it. -/
theorem stands_row {row text decoded : List Char} {c : Char}
    (positions : starts (row ++ text) = 0 :: (starts text).map (row.length + ·))
    (here : Stands (row ++ text) 0 c) (later : List.Forall₂ (Stands text) (starts text) decoded) :
    List.Forall₂ (Stands (row ++ text)) (starts (row ++ text)) (c :: decoded) := by
  rw [positions]
  refine .cons here (List.forall₂_map_left_iff.mpr (later.imp fun index c => ?_))
  exact stands_behind.mpr

/-- The characters of a decoded text are what the positions of the text stand for, in order. -/
theorem stands_of_decodes {text decoded : List Char} (decodes : Decodes text decoded) :
    List.Forall₂ (Stands text) (starts text) decoded := by
  induction decodes with
  | nil => exact .nil
  | @plain c text decoded other rest ih =>
    refine @stands_row [c] text decoded c (starts_row (by simp) (by simp) ?_)
      (.inl ⟨rfl, other⟩) ih
    intro index
    rw [List.length_singleton, Nat.add_comm]
    exact isBehind_plain other text index
  | @escape hundreds tens units named text decoded digits code rest ih =>
    have plain : ∀ c ∈ [hundreds, tens, units], c ≠ '\\' :=
      fun c member => ne_backslash_of_digit (digits c member)
    simp only [List.forall_mem_cons] at plain
    refine @stands_row ['\\', hundreds, tens, units] text decoded named
      (starts_row (by simp) ?_ ?_) (.inr ⟨rfl, code⟩) ih
    · intro index inside
      have near : index < 3 := Nat.lt_of_succ_lt_succ inside
      simp [isBehind_cons, near]
    · intro index
      change isBehind ('\\' :: hundreds :: tens :: units :: text) (4 + index) = _
      have far : ¬index + 3 < 3 := by omega
      rw [Nat.add_comm, isBehind_cons, isBehind_plain plain.1, isBehind_plain plain.2.1,
        isBehind_plain plain.2.2.1]
      simp [far]

/-- A text is decoded exactly when each backslash passes by itself, and exactly to what its
positions stand for. -/
theorem decode_local_iff {text decoded : List Char} :
    decode text = some decoded ↔
      WellEscaped text ∧ List.Forall₂ (Stands text) (starts text) decoded := by
  rw [decode_some_iff]
  constructor
  · intro decodes
    exact ⟨(decodes_iff_wellEscaped text).mp ⟨decoded, decodes⟩, stands_of_decodes decodes⟩
  · rintro ⟨well, stands⟩
    obtain ⟨found, decodes⟩ := (decodes_iff_wellEscaped text).mpr well
    rwa [stands_unique.forall₂ stands (stands_of_decodes decodes)]

theorem decodeText_some_iff {text decoded : String} :
    decodeText? text = some decoded ↔ decode text.toList = some decoded.toList := by
  rw [decodeText?, Option.map_eq_some_iff]
  constructor
  · rintro ⟨found, done, rfl⟩
    rw [done, String.toList_ofList]
  · intro done
    exact ⟨decoded.toList, done, String.ofList_toList⟩

/-- Escapes are local. A text can be decoded exactly when three digits follow each of its
backslashes; there is always a character with the code that they are. Then each position that is
not behind a backslash stands for one character, that one or itself, and these are the decoded
text, shorter than the text by three for each backslash. A text that can be decoded is decoded to
the same in front of any other, and the other one as if it stood alone. -/
theorem escapes_are_local (text : String) :
    (isWellFormed text = true ↔ WellEscaped text.toList) ∧
    (∀ hundreds tens units : Char, (∀ c ∈ [hundreds, tens, units], c.isDigit = true) →
      ∃ named, character? hundreds tens units = some named) ∧
    (∀ decoded, decodeText? text = some decoded ↔ WellEscaped text.toList ∧
      List.Forall₂ (Stands text.toList) (starts text.toList) decoded.toList) ∧
    ∀ decoded, decodeText? text = some decoded →
      decoded.length + 3 * text.toList.count '\\' = text.length ∧
      ∀ following, decodeText? (text ++ following) =
        (decodeText? following).map (decoded ++ ·) := by
  refine ⟨?_, fun _ _ _ => named_of_digits,
    fun decoded => decodeText_some_iff.trans decode_local_iff, ?_⟩
  · rw [isWellFormed, decodeText?, Option.isSome_map, Option.isSome_iff_exists,
      ← decodes_iff_wellEscaped]
    exact exists_congr fun _ => decode_some_iff
  · intro decoded done
    rw [decodeText_some_iff] at done
    constructor
    · rw [← String.length_toList, ← String.length_toList]
      exact length_of_decodes (decode_some_iff.mp done)
    · intro following
      rw [decodeText?, String.toList_append, decode_append done, decodeText?, Option.map_map,
        Option.map_map]
      congr 1
      funext rest
      simp

/-- Escapes side by side: a digit that follows an escape is not part of it. -/
example : starts "\\0651\\066".toList = [0, 4, 5] := by decide

end Framecode.Escape
