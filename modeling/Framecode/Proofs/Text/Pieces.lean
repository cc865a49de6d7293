import Framecode.Text.Cut
import Framecode.Text.Lines

/-! Pieces of texts: words, lines and the two parts around a mark. Cutting at a class
of characters is the cutting of the list library, so words are the nonempty pieces
between blanks and lines the pieces between line feeds. A carriage return at the end
of a line is blank, and is never part of a word. -/
namespace Framecode.Text

/-- A text is cut at the first mark, and in no other way. -/
theorem cutAt_some_iff {mark : Char} {text before following : List Char} :
    cutAt? mark text = some (before, following) ↔
      text = before ++ mark :: following ∧ mark ∉ before := by
  refine ⟨eq_of_cutAt?, ?_⟩
  rintro ⟨rfl, absent⟩
  induction before with
  | nil => simp [cutAt?]
  | cons c before ih =>
    rw [List.mem_cons, not_or] at absent
    rw [List.cons_append, cutAt?, if_neg (Ne.symm absent.1), ih absent.2]
    rfl

/-- A text without the mark is not cut. -/
theorem cutAt_none_iff {mark : Char} {text : List Char} :
    cutAt? mark text = none ↔ mark ∉ text := by
  constructor
  · intro uncut member
    obtain ⟨before, following, rfl, absent⟩ := List.eq_append_cons_of_mem member
    rw [cutAt_some_iff.mpr ⟨rfl, absent⟩] at uncut
    cases uncut
  · intro absent
    cases cut : cutAt? mark text with
    | none => rfl
    | some parts =>
      obtain ⟨rfl, _⟩ := cutAt_some_iff.mp cut
      simp at absent

/-- A run of characters ends where the class ends. -/
theorem run_ends {kept : Char → Bool} {body following : List Char}
    (inside : ∀ c ∈ body, kept c = true) (ends : following.head?.any kept = false) :
    (body ++ following).takeWhile kept = body ∧ (body ++ following).dropWhile kept = following := by
  rw [List.takeWhile_append_of_pos inside, List.dropWhile_append_of_pos inside]
  cases following with
  | nil => simp
  | cons c following =>
    rw [List.head?_cons, Option.any_some] at ends
    simp [ends]

/-- What follows a run of characters does not go on with it. -/
theorem run_stops (kept : Char → Bool) (text : List Char) :
    (text.dropWhile kept).head?.any kept = false := by
  have stopped := List.head?_dropWhile_not kept text
  cases first : (text.dropWhile kept).head? with
  | none => rfl
  | some c =>
    rw [first] at stopped
    simpa using stopped

/-- Cutting a text is cutting a list. -/
theorem splitWhere_eq_splitOnP (cut : Char → Bool) (text : List Char) :
    splitWhere cut text = text.splitOnP cut := by
  induction text with
  | nil => rfl
  | cons c rest ih =>
    rw [splitWhere, List.splitOnP_cons_eq_if_modifyHead, ih]
    split
    · rfl
    · cases pieces : rest.splitOnP cut with
      | nil => exact absurd pieces (List.splitOnP_ne_nil cut rest)
      | cons piece more => rfl

/-- No piece of a cut text holds a character that the text was cut at, and every
character of a piece is one of the text. -/
theorem mem_piece {cut : Char → Bool} {text piece : List Char} (held : piece ∈ text.splitOnP cut)
    {c : Char} (member : c ∈ piece) : cut c = false ∧ c ∈ text := by
  induction text generalizing piece with
  | nil =>
    rw [List.splitOnP_nil, List.mem_singleton] at held
    subst held
    cases member
  | cons first rest ih =>
    rw [List.splitOnP_cons_eq_if_modifyHead] at held
    split at held
    · rcases List.mem_cons.mp held with rfl | later
      · cases member
      · obtain ⟨uncut, inside⟩ := ih later member
        exact ⟨uncut, List.mem_cons_of_mem _ inside⟩
    · rename_i uncutFirst
      obtain ⟨head, tail, pieces⟩ := List.exists_cons_of_ne_nil (List.splitOnP_ne_nil cut rest)
      rw [pieces, List.modifyHead_cons] at held
      rw [pieces] at ih
      rcases List.mem_cons.mp held with rfl | later
      · rcases List.mem_cons.mp member with rfl | inHead
        · exact ⟨by simpa using uncutFirst, List.mem_cons_self⟩
        · obtain ⟨uncut, inside⟩ := ih List.mem_cons_self inHead
          exact ⟨uncut, List.mem_cons_of_mem _ inside⟩
      · obtain ⟨uncut, inside⟩ := ih (List.mem_cons_of_mem _ later) member
        exact ⟨uncut, List.mem_cons_of_mem _ inside⟩

theorem words_eq_filter (text : List Char) :
    words text = (text.splitOnP isBlank).filter fun piece => !piece.isEmpty := by
  rw [words, splitWhere_eq_splitOnP]

/-- A word is not empty and holds no blank. -/
theorem mem_words {text word : List Char} (member : word ∈ words text) :
    word ≠ [] ∧ ∀ c ∈ word, isBlank c = false ∧ c ∈ text := by
  rw [words_eq_filter, List.mem_filter] at member
  obtain ⟨held, filled⟩ := member
  exact ⟨by simpa using filled, fun c inside => mem_piece held inside⟩

/-- A blank separates the words before it from those after it. -/
theorem words_append_blank {c : Char} (blank : isBlank c = true) (before following : List Char) :
    words (before ++ c :: following) = words before ++ words following := by
  simp only [words_eq_filter]
  rw [List.splitOnP_append_cons before following blank, List.filter_append]

@[simp] theorem words_nil : words [] = [] := rfl

/-- A text that holds no blank is one word, or none if it is empty. -/
theorem words_of_unbroken {word : List Char} (unbroken : ∀ c ∈ word, isBlank c = false) :
    words word = [word].filter fun piece => !piece.isEmpty := by
  rw [words_eq_filter, List.splitOnP_eq_singleton unbroken]

/-- Texts without blanks, with one blank before each of them but the first, are read back as
they are, only that the empty ones are lost. -/
theorem words_of_spaced {first : List Char} {others : List (List Char)}
    (unbroken : ∀ word ∈ first :: others, ∀ c ∈ word, isBlank c = false) :
    words (first ++ others.flatMap (' ' :: ·)) =
      (first :: others).filter fun piece => !piece.isEmpty := by
  have firstAlone := words_of_unbroken (unbroken first List.mem_cons_self)
  induction others generalizing first with
  | nil =>
    rw [List.flatMap_nil, List.append_nil]
    exact firstAlone
  | cons second others ih =>
    have behind : ∀ word ∈ second :: others, ∀ c ∈ word, isBlank c = false :=
      fun word member => unbroken word (List.mem_cons_of_mem _ member)
    have rest := ih behind (words_of_unbroken (behind second List.mem_cons_self))
    rw [List.flatMap_cons, List.cons_append, words_append_blank (by decide), firstAlone, rest,
      ← List.filter_append, List.singleton_append]

/-- A line without its carriage return is the line, or the line up to a carriage
return at its end. -/
theorem dropReturn_cases (line : List Char) :
    dropReturn line = line ∨ line = dropReturn line ++ ['\r'] := by
  unfold dropReturn
  split
  · rename_i ends
    obtain ⟨before, rfl⟩ := List.getLast?_eq_some_iff.mp ends
    exact Or.inr (by rw [List.dropLast_concat])
  · exact Or.inl rfl

/-- The lines of a text are its pieces between line feeds, without carriage returns
at their line ends; an empty piece at the end of the text is no line. -/
theorem lines_eq_pieces (text : List Char) :
    ∃ closed last, text.splitOn '\n' = closed ++ [last] ∧
      lines text = closed.map dropReturn ++ if last = [] then [] else [last] := by
  have pieces : splitWhere (· == '\n') text = text.splitOn '\n' := by
    rw [splitWhere_eq_splitOnP, List.splitOn_eq_splitOnP]
  obtain ⟨closed, last, whole⟩ :=
    (List.eq_nil_or_concat (text.splitOn '\n')).resolve_left (List.splitOn_ne_nil '\n' text)
  rw [List.concat_eq_append] at whole
  refine ⟨closed, last, whole, ?_⟩
  simp only [lines, pieces, whole, List.dropLast_concat, List.getLast?_concat]
  cases last with
  | nil => simp
  | cons c rest => simp

end Framecode.Text
