import Framecode.Proofs.Engine.Positions
import Framecode.Proofs.Engine.Storing
import Framecode.Proofs.Literal.Integers
import Framecode.Proofs.Text.Order

/-! The instructions on texts. A text is the sequence of its characters: STRLEN counts them,
CONCAT puts two sequences together, GETCHAR and STRI2INT look at the one at an index, and SETCHAR
replaces it. All of them count alike, whatever the characters are. -/
namespace Framecode.Engine

/-! ## Characters by their indexes -/

section

variable {text more replacement changed : String} {index other code : Int64} {c : Char}
  {cause : Cause}

/-- An index is that of a character of a text. -/
def Within (index : Int64) (text : String) : Prop :=
  0 ≤ index.toInt ∧ index.toInt < text.length

/-- The length of a text is exact, up to the highest integer. -/
theorem toInt_lengthOf (text : String) :
    (lengthOf text).toInt = min (text.length : Int) (2 ^ 63 - 1) := by
  have most : Int64.maxValue.toInt = 2 ^ 63 - 1 := rfl
  unfold lengthOf
  cases narrowed : Integer.narrow? text.length with
  | some word =>
    have same := Integer.narrow_some_iff.mp narrowed
    have high := word.toInt_lt
    simp only [Option.getD_some]
    omega
  | none =>
    have above : ¬(text.length : Int) ≤ Int64.maxValue.toInt := by
      intro fits
      simp [Integer.narrow?, fits] at narrowed
    simp only [Option.getD_none]
    omega

private theorem characterAt_ok_iff :
    characterAt text index = .ok c ↔
      0 ≤ index.toInt ∧ text.toList[index.toInt.toNat]? = some c := by
  unfold characterAt
  by_cases low : 0 ≤ index.toInt
  · simp only [low, ↓reduceIte, true_and]
    cases text.toList[index.toInt.toNat]? <;> simp
  · simp [low]

private theorem toNat_lt_of_within (within : Within index text) :
    index.toInt.toNat < text.toList.length := by
  obtain ⟨low, high⟩ := within
  rw [String.length_toList]
  omega

private theorem within_iff : Within index text ↔ ∃ c, characterAt text index = .ok c := by
  constructor
  · intro within
    have held := List.getElem?_eq_getElem (toNat_lt_of_within within)
    exact ⟨_, characterAt_ok_iff.mpr ⟨within.1, held⟩⟩
  · rintro ⟨c, found⟩
    obtain ⟨low, held⟩ := characterAt_ok_iff.mp found
    obtain ⟨inside, -⟩ := List.getElem?_eq_some_iff.mp held
    rw [String.length_toList] at inside
    exact ⟨low, by omega⟩

private theorem characterAt_of_not_within (outside : ¬Within index text) :
    characterAt text index = .error (.indexOutOfRange index text.length) := by
  unfold characterAt
  split
  next low =>
    split
    next c held => exact absurd (within_iff.mpr ⟨c, characterAt_ok_iff.mpr ⟨low, held⟩⟩) outside
    next => rfl
  next => rfl

private theorem map_characterAt_error {β : Type} {change : Char → β}
    (outside : ¬Within index text) :
    (characterAt text index).map change = .error (.indexOutOfRange index text.length) :=
  map_error_iff.mpr (characterAt_of_not_within outside)

private theorem characterAt_append_left (low : index.toInt < text.length) :
    characterAt (text ++ more) index = .ok c ↔ characterAt text index = .ok c := by
  rw [characterAt_ok_iff, characterAt_ok_iff, String.toList_append]
  refine and_congr_right fun natural => ?_
  rw [List.getElem?_append_left (toNat_lt_of_within ⟨natural, low⟩)]

private theorem characterAt_append_right (high : text.length ≤ index.toInt)
    (shifted : other.toInt = index.toInt - text.length) :
    characterAt (text ++ more) index = .ok c ↔ characterAt more other = .ok c := by
  have behind : text.toList.length ≤ index.toInt.toNat := by
    rw [String.length_toList]
    omega
  have place : index.toInt.toNat - text.toList.length = other.toInt.toNat := by
    rw [String.length_toList]
    omega
  rw [characterAt_ok_iff, characterAt_ok_iff, String.toList_append,
    List.getElem?_append_right behind, place]
  exact and_congr_left fun _ => by omega

/-- A number is a code point that is not a surrogate. -/
def ScalarValue (number : Int) : Prop :=
  0 ≤ number ∧ number < 0xD800 ∨ 0xDFFF < number ∧ number < 0x110000

private theorem scalarValue_iff {number : Int} :
    ScalarValue number ↔ 0 ≤ number ∧ number.toNat.isValidChar := by
  unfold ScalarValue Nat.isValidChar
  omega

private theorem characterOf_ok_iff : characterOf code = .ok c ↔ code.toInt = c.toNat := by
  unfold characterOf
  constructor
  · intro found
    split at found
    next valid =>
      cases found
      rw [Char.ofNat, dif_pos valid.2]
      exact (Int.toNat_of_nonneg valid.1).symm
    next => cases found
  · intro same
    have valid : code.toInt.toNat.isValidChar := by
      rw [same]
      exact c.valid
    rw [if_pos ⟨by omega, valid⟩, same, Int.toNat_natCast, Char.ofNat_toNat]

private theorem characterOf_of_not_scalar (outside : ¬ScalarValue code.toInt) :
    characterOf code = .error (.codepointOutOfRange code) :=
  if_neg fun valid => outside (scalarValue_iff.mpr valid)

private theorem scalar_iff : ScalarValue code.toInt ↔ ∃ c, characterOf code = .ok c := by
  constructor
  · intro scalar
    exact ⟨_, if_pos (scalarValue_iff.mp scalar)⟩
  · rintro ⟨c, found⟩
    by_contra outside
    rw [characterOf_of_not_scalar outside] at found
    cases found

/-- A code point fits into a word, so that the character comes back from it. -/
theorem characterOf_codepoint (c : Char) : characterOf (Int64.ofNat c.toNat) = .ok c := by
  have small := Text.toNat_lt c
  exact characterOf_ok_iff.mpr (Int64.toInt_ofNat_of_lt (by omega))

/-- The character of a word has that word for its code point. -/
theorem codepoint_of_characterOf (found : characterOf code = .ok c) :
    Int64.ofNat c.toNat = code := by
  have same := characterOf_ok_iff.mp found
  rw [← Int64.ofInt_eq_ofNat, ← same, Int64.ofInt_toInt]

private theorem characterAt_zero {rest : List Char} (letters : text.toList = c :: rest) :
    characterAt text 0 = .ok c :=
  characterAt_ok_iff.mpr ⟨by decide, by rw [letters]; rfl⟩

private theorem exists_cons_of_ne_empty (filled : text ≠ "") : ∃ c rest, text.toList = c :: rest :=
  List.exists_cons_of_ne_nil fun blank => filled (String.toList_eq_nil_iff.mp blank)

/-- A text with another character at an index. -/
def putAt (text : String) (index : Int64) (c : Char) : String :=
  String.ofList (text.toList.set index.toInt.toNat c)

/-- The index is looked at only when there is a character to put there. -/
theorem replaceAt_of_cons {rest : List Char} (letters : replacement.toList = c :: rest) :
    replaceAt text index replacement =
      (characterAt text index).map fun _ => putAt text index c := by
  rw [replaceAt, letters]
  cases characterAt text index <;> rfl

private theorem length_putAt (text : String) (index : Int64) (c : Char) :
    (putAt text index c).length = text.length := by
  simp [putAt, String.length_toList]

/-- The character that is put at an index of a text is found there. -/
theorem characterAt_putAt_self (within : Within index text) :
    characterAt (putAt text index c) index = .ok c := by
  rw [characterAt_ok_iff, putAt, String.toList_ofList]
  exact ⟨within.1, List.getElem?_set_self (toNat_lt_of_within within)⟩

/-- At every other index there is what was there before. -/
theorem characterAt_putAt_ne (natural : 0 ≤ index.toInt) (elsewhere : other ≠ index) :
    characterAt (putAt text index c) other = characterAt text other := by
  simp only [characterAt, length_putAt]
  split
  next low =>
    have apart : index.toInt.toNat ≠ other.toInt.toNat := by
      intro same
      exact elsewhere (Int64.toInt_inj.mp (by omega))
    rw [putAt, String.toList_ofList, List.getElem?_set_ne apart]
  next => rfl

end

/-! ## The instructions -/

section

variable {text left right replacement : String} {index code : Int64} {c : Char}
  {answer : Except Cause Value}

/-- The text of one character. -/
def ofCharacter (c : Char) : Value := .string (String.singleton c)

/-- The code point of a character. -/
def codepointOf (c : Char) : Value := .int (Int64.ofNat c.toNat)

/-- A result of some form is there whenever there is something to make it of. -/
theorem map_made_iff {α β : Type} {result : Except Cause α} {change : α → Value} {make : β → Value}
    (made : ∀ found, ∃ other, change found = make other) :
    (∃ other, result.map change = .ok (make other)) ↔ ∃ found, result = .ok found := by
  simp only [map_ok_iff]
  constructor
  · rintro ⟨_, found, done, -⟩
    exact ⟨found, done⟩
  · rintro ⟨found, done⟩
    obtain ⟨other, same⟩ := made found
    exact ⟨other, found, done, same⟩

private theorem made_within_iff {β : Type} {change : Char → Value} {make : β → Value}
    (made : ∀ found, ∃ other, change found = make other) :
    (∃ other, (characterAt text index).map change = .ok (make other)) ↔ Within index text := by
  rw [within_iff]
  exact map_made_iff made

private theorem codepointOf_eq_iff : codepointOf c = .int code ↔ characterOf code = .ok c := by
  constructor
  · intro same
    cases same
    exact characterOf_codepoint c
  · intro found
    rw [codepointOf, codepoint_of_characterOf found]

private theorem answers_strlen {app : Application .strlen [.string text]} :
    app.Answers answer ↔ .ok (.int (lengthOf text)) = answer := by
  refine app.answers_one_iff (fun _ _ _ => rfl) fun frames source valued => ?_
  rw [Formula.value, Frames.textOf_of_value valued]
  rfl

private theorem answers_int2char {app : Application .int2char [.int code]} :
    app.Answers answer ↔ (characterOf code).map ofCharacter = answer := by
  refine app.answers_one_iff (fun _ _ _ => rfl) fun frames source valued => ?_
  rw [Formula.value, Frames.intOf_of_value valued]
  rfl

private theorem answers_concat {app : Application .concat [.string left, .string right]} :
    app.Answers answer ↔ .ok (.string (left ++ right)) = answer := by
  refine app.answers_two_iff (fun _ _ _ _ => rfl) fun frames first second leftHolds rightHolds => ?_
  rw [Formula.value, Frames.textOf_of_value leftHolds, Frames.textOf_of_value rightHolds]
  rfl

private theorem answers_getChar {app : Application .getChar [.string text, .int index]} :
    app.Answers answer ↔ (characterAt text index).map ofCharacter = answer := by
  refine app.answers_two_iff (fun _ _ _ _ => rfl) fun frames first second textHolds indexHolds => ?_
  rw [Formula.value, Frames.textOf_of_value textHolds, Frames.intOf_of_value indexHolds]
  rfl

private theorem answers_stri2int {app : Application .stri2int [.string text, .int index]} :
    app.Answers answer ↔ (characterAt text index).map codepointOf = answer := by
  refine app.answers_two_iff (fun _ _ _ _ => rfl) fun frames first second textHolds indexHolds => ?_
  rw [Formula.value, Frames.textOf_of_value textHolds, Frames.intOf_of_value indexHolds]
  rfl

/-- SETCHAR on a variable that holds a text. -/
structure Replacement (text : String) (index : Int64) (replacement : String) extends
    Application .setChar [.int index, .string replacement] where
  kind : target.kind = .var
  held : state.frames.contents var = .ok (some (.string text))

private theorem Replacement.answers_iff {app : Replacement text index replacement} :
    app.Answers answer ↔ (replaceAt text index replacement).map Value.string = answer := by
  obtain ⟨first, second, two, indexValued, newValued⟩ := Turn.takes_two_iff.mp app.taken
  have computes : app.Computes (.replace app.target first second) :=
    ⟨by rw [Turn.instruction, two]; rfl⟩
  have named := (Frames.targetOf_ok_iff.mp app.targeted).1
  have valued : app.state.frames.valueOf app.target = .ok (.string text) := by
    simp only [Frames.valueOf, Frames.slotOf, app.kind, ↓reduceIte,
      Frames.variableOf_ok_iff.mpr named, bind, Except.bind, app.held]
    rfl
  rw [Application.answers_iff computes, Formula.value, Frames.textOf_of_value valued,
    Frames.intOf_of_value indexValued, Frames.textOf_of_value newValued]
  rfl

private theorem Replacement.answers_cons_iff {app : Replacement text index replacement}
    {rest : List Char}
    (letters : replacement.toList = c :: rest) :
    app.Answers answer ↔
      (characterAt text index).map (fun _ => Value.string (putAt text index c)) = answer := by
  rw [app.answers_iff, replaceAt_of_cons letters]
  cases characterAt text index <;> rfl

end

/-! ## Sequences of characters -/

/-- The instructions on texts, in whatever states they are executed. A text put together has the
characters of its parts, one part behind the other. There is a character at every index from zero
up to the length and nowhere else; it has a code point, and comes back from it. A character that
is replaced leaves all others in their places. -/
theorem texts_are_sequences :
    (∀ s (measuring : Application .strlen [.string s]), ∃ n : Int64,
      measuring.Answers (.ok (.int n)) ∧ (s.length < 2 ^ 63 → n.toInt = s.length)) ∧
    -- What is put together is as long as its parts, and has their characters.
    (∀ s t (joining : Application .concat [.string s, .string t]), ∃ whole,
      joining.Answers (.ok (.string whole)) ∧
      (∀ (first : Application .strlen [.string s]) (second : Application .strlen [.string t])
        (both : Application .strlen [.string whole]) m n k, first.Answers (.ok (.int m)) →
        second.Answers (.ok (.int n)) → both.Answers (.ok (.int k)) →
        k.toInt = min (m.toInt + n.toInt) (2 ^ 63 - 1) ∧
        (whole.length < 2 ^ 63 → k.toInt = m.toInt + n.toInt)) ∧
      ∀ i (looking : Application .getChar [.string whole, .int i]) value,
        (∀ (inFirst : Application .getChar [.string s, .int i]), i.toInt < s.length →
          (looking.Answers (.ok value) ↔ inFirst.Answers (.ok value))) ∧
        ∀ j (inSecond : Application .getChar [.string t, .int j]), s.length ≤ i.toInt →
          j.toInt = i.toInt - s.length →
          (looking.Answers (.ok value) ↔ inSecond.Answers (.ok value))) ∧
    -- GETCHAR and STRI2INT look at the same character.
    (∀ s i (looking : Application .getChar [.string s, .int i])
      (coding : Application .stri2int [.string s, .int i]),
      ((∃ letter, looking.Answers (.ok (.string letter))) ↔ Within i s) ∧
      ((∃ n, coding.Answers (.ok (.int n))) ↔ Within i s) ∧
      (¬Within i s → looking.Answers (.error (.indexOutOfRange i s.length)) ∧
        coding.Answers (.error (.indexOutOfRange i s.length))) ∧
      (∀ c, 0 ≤ i.toInt → s.toList[i.toInt.toNat]? = some c →
        looking.Answers (.ok (ofCharacter c))) ∧
      ∀ n (making : Application .int2char [.int n]), coding.Answers (.ok (.int n)) →
        ∃ value, making.Answers (.ok value) ∧ looking.Answers (.ok value)) ∧
    -- INT2CHAR takes the code points that characters have.
    (∀ n (making : Application .int2char [.int n]),
      ((∃ made, making.Answers (.ok (.string made))) ↔ ScalarValue n.toInt) ∧
      (¬ScalarValue n.toInt → making.Answers (.error (.codepointOutOfRange n))) ∧
      ∀ made (coding : Application .stri2int [.string made, .int 0]),
        making.Answers (.ok (.string made)) → coding.Answers (.ok (.int n))) ∧
    -- SETCHAR looks for a new character first, and then for the old one.
    ∀ s i r (replacing : Replacement s i r),
      (r = "" → replacing.Answers (.error .emptyReplacement)) ∧
      (r ≠ "" →
        ((∃ changed, replacing.Answers (.ok (.string changed))) ↔ Within i s) ∧
        (¬Within i s → replacing.Answers (.error (.indexOutOfRange i s.length))) ∧
        ∀ changed, replacing.Answers (.ok (.string changed)) →
          changed.length = s.length ∧
          (∀ (after : Application .getChar [.string changed, .int i])
            (first : Application .getChar [.string r, .int 0]),
            ∃ value, after.Answers (.ok value) ∧ first.Answers (.ok value)) ∧
          ∀ j, j ≠ i → ∀ (after : Application .getChar [.string changed, .int j])
            (before : Application .getChar [.string s, .int j]) answer,
            after.Answers answer ↔ before.Answers answer) := by
  refine ⟨?_, ?_, ?_, ?_, ?_⟩
  · intro s measuring
    refine ⟨lengthOf s, answers_strlen.mpr rfl, fun short => ?_⟩
    have length := toInt_lengthOf s
    omega
  · intro s t joining
    refine ⟨s ++ t, answers_concat.mpr rfl, ?_, ?_⟩
    · intro first second both m n k measured measuredToo whole
      cases answers_strlen.mp measured
      cases answers_strlen.mp measuredToo
      cases answers_strlen.mp whole
      simp only [toInt_lengthOf, String.length_append]
      omega
    · intro i looking value
      simp only [answers_getChar, map_ok_iff]
      constructor
      · intro _ low
        simp only [characterAt_append_left low]
      · intro j _ high shifted
        simp only [characterAt_append_right high shifted]
  · intro s i looking coding
    simp only [answers_getChar, answers_stri2int, answers_int2char]
    refine ⟨made_within_iff fun c => ⟨_, rfl⟩, made_within_iff fun c => ⟨_, rfl⟩, ?_, ?_, ?_⟩
    · intro outside
      exact ⟨map_characterAt_error outside, map_characterAt_error outside⟩
    · intro c low held
      rw [characterAt_ok_iff.mpr ⟨low, held⟩]
      rfl
    · intro n making coded
      obtain ⟨c, found, same⟩ := map_ok_iff.mp coded
      refine ⟨ofCharacter c, ?_, ?_⟩
      · rw [codepointOf_eq_iff.mp same]
        rfl
      · rw [found]
        rfl
  · intro n making
    simp only [answers_stri2int, answers_int2char]
    refine ⟨?_, ?_, ?_⟩
    · rw [scalar_iff]
      exact map_made_iff fun c => ⟨_, rfl⟩
    · intro outside
      exact map_error_iff.mpr (characterOf_of_not_scalar outside)
    · intro made coding answered
      obtain ⟨c, found, same⟩ := map_ok_iff.mp answered
      cases same
      rw [characterAt_zero (String.toList_singleton c)]
      exact congrArg Except.ok (codepointOf_eq_iff.mpr found)
  · intro s i r replacing
    refine ⟨?_, fun filled => ?_⟩
    · rintro rfl
      exact replacing.answers_iff.mpr rfl
    · obtain ⟨c, rest, letters⟩ := exists_cons_of_ne_empty filled
      simp only [replacing.answers_cons_iff letters, answers_getChar]
      refine ⟨made_within_iff fun c => ⟨_, rfl⟩, map_characterAt_error, ?_⟩
      intro changed answered
      obtain ⟨old, found, same⟩ := map_ok_iff.mp answered
      cases same
      have within : Within i s := within_iff.mpr ⟨old, found⟩
      refine ⟨length_putAt s i c, ?_, ?_⟩
      · intro _ _
        refine ⟨ofCharacter c, ?_, ?_⟩
        · rw [characterAt_putAt_self within]
          rfl
        · rw [characterAt_zero letters]
          rfl
      · intro j elsewhere _ _ answer
        rw [characterAt_putAt_ne within.1 elsewhere]

/-- A program that puts a text together, changes a letter of it, and looks at another one before
and after that, as a text and as a code point. It ends with a fault: there is nothing to put at an
index that does not exist either. -/
def lettering : Program :=
  ⟨[⟨1, .defVar, [⟨.var, "GF@t"⟩]⟩,
    ⟨2, .defVar, [⟨.var, "GF@c"⟩]⟩,
    ⟨3, .concat, [⟨.var, "GF@t"⟩, ⟨.literal .string, "ků"⟩, ⟨.literal .string, "ň"⟩]⟩,
    ⟨4, .getChar, [⟨.var, "GF@c"⟩, ⟨.var, "GF@t"⟩, ⟨.literal .int, "2"⟩]⟩,
    ⟨5, .setChar, [⟨.var, "GF@t"⟩, ⟨.literal .int, "1"⟩, ⟨.literal .string, "ouha"⟩]⟩,
    ⟨6, .getChar, [⟨.var, "GF@c"⟩, ⟨.var, "GF@t"⟩, ⟨.literal .int, "2"⟩]⟩,
    ⟨7, .stri2int, [⟨.var, "GF@c"⟩, ⟨.var, "GF@t"⟩, ⟨.literal .int, "2"⟩]⟩,
    ⟨8, .int2char, [⟨.var, "GF@c"⟩, ⟨.var, "GF@c"⟩]⟩,
    ⟨9, .strlen, [⟨.var, "GF@c"⟩, ⟨.var, "GF@t"⟩]⟩,
    ⟨10, .setChar, [⟨.var, "GF@t"⟩, ⟨.literal .int, "-1"⟩, ⟨.literal .string, ""⟩]⟩]⟩

/-- The machine that runs it. -/
def letteringMachine : Machine := ⟨⟨lettering.instructions, {}⟩, .accepting⟩

/-- Its state at a position, with both variables declared. -/
def letteringState (position : Nat) (text letter : Slot) : State :=
  { frames := { globals := ⟨[("t", text), ("c", letter)]⟩ }, next := position }

/-- The text put together. -/
def letteringWhole : Application .concat [.string "ků", .string "ň"] :=
  ⟨⟨letteringMachine, letteringState 3 none none, 3, ⟨.var, "GF@t"⟩,
    [⟨.literal .string, "ků"⟩, ⟨.literal .string, "ň"⟩], rfl⟩, ⟨.globalFrame, "t"⟩, rfl, rfl⟩

/-- The last letter of it. -/
def letteringBefore : Application .getChar [.string "kůň", .int 2] :=
  ⟨⟨letteringMachine, letteringState 4 (some (.string "kůň")) none, 4, ⟨.var, "GF@c"⟩,
    [⟨.var, "GF@t"⟩, ⟨.literal .int, "2"⟩], rfl⟩, ⟨.globalFrame, "c"⟩, rfl, rfl⟩

/-- The letter changed. -/
def letteringChange : Replacement "kůň" 1 "ouha" :=
  ⟨⟨⟨letteringMachine, letteringState 5 (some (.string "kůň")) (some (.string "ň")), 5,
    ⟨.var, "GF@t"⟩, [⟨.literal .int, "1"⟩, ⟨.literal .string, "ouha"⟩], rfl⟩,
    ⟨.globalFrame, "t"⟩, rfl, rfl⟩, rfl, rfl⟩

/-- The last letter again. -/
def letteringAfter : Application .getChar [.string "koň", .int 2] :=
  ⟨⟨letteringMachine, letteringState 6 (some (.string "koň")) (some (.string "ň")), 6,
    ⟨.var, "GF@c"⟩, [⟨.var, "GF@t"⟩, ⟨.literal .int, "2"⟩], rfl⟩, ⟨.globalFrame, "c"⟩, rfl, rfl⟩

/-- Its code point. -/
def letteringCode : Application .stri2int [.string "koň", .int 2] :=
  ⟨⟨letteringMachine, letteringState 7 (some (.string "koň")) (some (.string "ň")), 7,
    ⟨.var, "GF@c"⟩, [⟨.var, "GF@t"⟩, ⟨.literal .int, "2"⟩], rfl⟩, ⟨.globalFrame, "c"⟩, rfl, rfl⟩

/-- The letter with that code point. -/
def letteringBack : Application .int2char [.int 328] :=
  ⟨⟨letteringMachine, letteringState 8 (some (.string "koň")) (some (.int 328)), 8,
    ⟨.var, "GF@c"⟩, [⟨.var, "GF@c"⟩], rfl⟩, ⟨.globalFrame, "c"⟩, rfl, rfl⟩

/-- The length of the text. -/
def letteringLength : Application .strlen [.string "koň"] :=
  ⟨⟨letteringMachine, letteringState 9 (some (.string "koň")) (some (.string "ň")), 9,
    ⟨.var, "GF@c"⟩, [⟨.var, "GF@t"⟩], rfl⟩, ⟨.globalFrame, "c"⟩, rfl, rfl⟩

/-- The last instruction. -/
def letteringNothing : Replacement "koň" (-1) "" :=
  ⟨⟨⟨letteringMachine, letteringState 10 (some (.string "koň")) (some (.int 3)), 10,
    ⟨.var, "GF@t"⟩, [⟨.literal .int, "-1"⟩, ⟨.literal .string, ""⟩], rfl⟩,
    ⟨.globalFrame, "t"⟩, rfl, rfl⟩, rfl, rfl⟩

theorem lettering_keeps_the_last_letter :
    Code.load lettering = .ok letteringMachine.code ∧
    Reached letteringMachine {} letteringNothing.state ∧
    letteringChange.Answers (.ok (.string "koň")) ∧
    (∀ answer, letteringAfter.Answers answer ↔ letteringBefore.Answers answer) ∧
    (∃ value, letteringBack.Answers (.ok value) ∧ letteringAfter.Answers (.ok value)) ∧
    (∃ n : Int64, letteringLength.Answers (.ok (.int n)) ∧ n.toInt = 3) ∧
    letteringNothing.Answers (.error .emptyReplacement) := by
  have loaded : Code.load lettering = .ok letteringMachine.code := load_of_listed rfl rfl rfl
  have declared : Reached letteringMachine {} letteringWhole.state := .step (.step .initial rfl) rfl
  have joined : Reached letteringMachine {} letteringBefore.state := .step declared rfl
  have looked : Reached letteringMachine {} letteringChange.state := .step joined rfl
  have changed : Reached letteringMachine {} letteringAfter.state := .step looked rfl
  have again : Reached letteringMachine {} letteringCode.state := .step changed rfl
  have coded : Reached letteringMachine {} letteringBack.state := .step again rfl
  have back : Reached letteringMachine {} letteringLength.state := .step coded rfl
  have reached : Reached letteringMachine {} letteringNothing.state := .step back rfl
  obtain ⟨measures, _, looks, _, replaces⟩ := texts_are_sequences
  have replaced : letteringChange.Answers (.ok (.string "koň")) := ⟨rfl, rfl⟩
  have point : letteringCode.Answers (.ok (.int 328)) := ⟨rfl, rfl⟩
  obtain ⟨_, _, kept⟩ := ((replaces _ _ _ letteringChange).2 (by decide)).2.2 _ replaced
  obtain ⟨n, measured, exact⟩ := measures _ letteringLength
  exact ⟨loaded, reached, replaced, kept 2 (by decide) letteringAfter letteringBefore,
    (looks _ _ letteringAfter letteringCode).2.2.2.2 _ letteringBack point,
    ⟨n, measured, exact (by decide)⟩, (replaces _ _ _ letteringNothing).1 rfl⟩

end Framecode.Engine
