import Framecode.Text.Blank
import Mathlib.Data.List.Induction
import Mathlib.Data.List.Infix
import Mathlib.Data.List.TakeWhile

/-! Trimmed texts. Trimming takes away blanks at both ends and nothing else, and stops
only where a character that is not blank stands at either end. Of two texts one of which
begins the other, the same holds once both are trimmed. -/
namespace Framecode.Text

/-- A text that neither starts nor ends with a blank. -/
structure Bare (text : List Char) : Prop where
  starts : ∀ c, text.head? = some c → isBlank c = false
  ends : ∀ c, text.getLast? = some c → isBlank c = false

/-- One text is another without the blanks around it. -/
structure Trims (text result : List Char) : Prop where
  surrounded : ∃ lead trail, text = lead ++ result ++ trail ∧
    (∀ c ∈ lead, isBlank c = true) ∧ ∀ c ∈ trail, isBlank c = true
  bare : Bare result

private theorem dropBlanks_head {text : List Char} {c : Char}
    (first : (text.dropWhile isBlank).head? = some c) : isBlank c = false := by
  have stopped := List.head?_dropWhile_not isBlank text
  rw [first] at stopped
  exact stopped

theorem dropBlanks_lead (text : List Char) :
    ∃ lead, text = lead ++ text.dropWhile isBlank ∧ ∀ c ∈ lead, isBlank c = true :=
  ⟨text.takeWhile isBlank, List.takeWhile_append_dropWhile.symm,
    List.all_eq_true.mp List.all_takeWhile⟩

private theorem trimEnd_trail (text : List Char) :
    ∃ trail, text = trimEnd text ++ trail ∧ ∀ c ∈ trail, isBlank c = true := by
  obtain ⟨lead, whole, blank⟩ := dropBlanks_lead text.reverse
  refine ⟨lead.reverse, ?_, fun c member => blank c (List.mem_reverse.mp member)⟩
  have reversed := congrArg List.reverse whole
  rw [List.reverse_reverse, List.reverse_append] at reversed
  exact reversed

theorem trims_trim (text : List Char) : Trims text (trim text) := by
  obtain ⟨lead, leading, leadBlank⟩ := dropBlanks_lead text
  obtain ⟨trail, trailing, trailBlank⟩ := trimEnd_trail (trimStart text)
  refine ⟨⟨lead, trail, ?_, leadBlank, trailBlank⟩, fun c first => ?_, fun c last => ?_⟩
  · rw [List.append_assoc, trim, ← trailing]
    exact leading
  · refine @dropBlanks_head text c ?_
    have kept : (trimStart text).head? = some c := by
      rw [trailing, List.head?_append]
      exact Option.or_eq_some_iff.mpr (.inl first)
    exact kept
  · rw [trim, trimEnd, List.getLast?_reverse] at last
    exact dropBlanks_head last

private theorem dropBlanks_eq_self {text : List Char}
    (starts : ∀ c, text.head? = some c → isBlank c = false) : text.dropWhile isBlank = text := by
  cases text with
  | nil => rfl
  | cons c rest => rw [List.dropWhile_cons_of_neg (by simp [starts c rfl])]

theorem trim_eq_self_iff {text : List Char} : trim text = text ↔ Bare text := by
  constructor
  · intro same
    rw [← same]
    exact (trims_trim text).bare
  · intro bare
    have reversed : text.reverse.dropWhile isBlank = text.reverse := by
      refine dropBlanks_eq_self fun c first => bare.ends c ?_
      rwa [List.head?_reverse] at first
    rw [trim, trimStart, dropBlanks_eq_self bare.starts, trimEnd, reversed, List.reverse_reverse]

theorem trim_unbroken {text : List Char} (unbroken : ∀ c ∈ text, isBlank c = false) :
    trim text = text :=
  trim_eq_self_iff.mpr ⟨fun c first => unbroken c (List.mem_of_head? first),
    fun c last => unbroken c (List.mem_of_getLast? last)⟩

theorem trimmed_eq_self_iff {text : String} : trimmed text = text ↔ Bare text.toList := by
  rw [← trim_eq_self_iff, trimmed, ← String.toList_inj, String.toList_ofList]

/-! ## Starts of texts -/

/-- One text begins another, blanks at its end apart. -/
def Begins (start text : List Char) : Prop :=
  ∃ kept trail, start = kept ++ trail ∧ (∀ c ∈ trail, isBlank c = true) ∧ kept <+: text

theorem begins_self (text : List Char) : Begins text text :=
  ⟨text, [], by simp, by simp, List.prefix_rfl⟩

theorem Begins.behind {start text : List Char} (begins : Begins start text) (lead : List Char) :
    Begins (lead ++ start) (lead ++ text) := by
  obtain ⟨kept, trail, rfl, blank, starts⟩ := begins
  exact ⟨lead ++ kept, trail, by simp, blank, (List.prefix_append_right_inj lead).mpr starts⟩

theorem Begins.append {start text : List Char} (begins : Begins start text) (more : List Char) :
    Begins start (text ++ more) := by
  obtain ⟨kept, trail, whole, blank, starts⟩ := begins
  exact ⟨kept, trail, whole, blank, starts.trans (List.prefix_append text more)⟩

private theorem trimEnd_append_blanks {trail : List Char} (text : List Char)
    (blank : ∀ c ∈ trail, isBlank c = true) : trimEnd (text ++ trail) = trimEnd text := by
  rw [trimEnd, trimEnd, List.reverse_append, List.dropWhile_append_of_pos]
  exact fun c member => blank c (List.mem_reverse.mp member)

private theorem trimEnd_last {text : List Char} {c : Char}
    (last : (trimEnd text).getLast? = some c) :
    isBlank c = false := by
  rw [trimEnd, List.getLast?_reverse] at last
  exact dropBlanks_head last

/-- The blanks at the end of a longer text stand no earlier. -/
theorem trimEnd_prefix {start text : List Char} (starts : start <+: text) :
    trimEnd start <+: trimEnd text := by
  obtain ⟨lost, whole, _⟩ := trimEnd_trail start
  obtain ⟨trail, split, blank⟩ := trimEnd_trail text
  have inText : trimEnd start <+: text := by
    refine List.IsPrefix.trans ⟨lost, whole.symm⟩ starts
  rcases List.prefix_or_prefix_of_prefix inText ⟨trail, split.symm⟩ with inside | ⟨more, longer⟩
  · exact inside
  · -- What the shorter text has beyond the end of the longer one would be blank.
    cases more using List.reverseRecOn with
    | nil => exact ⟨[], by rw [List.append_nil, ← longer, List.append_nil]⟩
    | append_singleton more c =>
      have solid : isBlank c = false := by
        refine @trimEnd_last start c ?_
        rw [← longer, ← List.append_assoc, List.getLast?_concat]
      have inTrail : c ∈ trail := by
        obtain ⟨rest, again⟩ := inText
        rw [← longer, List.append_assoc] at again
        have same := List.append_cancel_left (again.trans split)
        rw [← same]
        simp
      rw [blank c inTrail] at solid
      cases solid

/-- What begins a text begins it without blanks too. -/
theorem Begins.trim {start text : List Char} (begins : Begins start text) :
    trim start <+: trim text := by
  obtain ⟨kept, trail, rfl, blank, rest, rfl⟩ := begins
  by_cases void : kept.all isBlank = true
  · have gone : trimStart (kept ++ trail) = [] := by
      rw [trimStart, List.dropWhile_eq_nil_iff]
      intro c member
      rcases List.mem_append.mp member with inKept | inTrail
      · exact List.all_eq_true.mp void c inKept
      · exact blank c inTrail
    rw [Text.trim, gone]
    exact List.nil_prefix
  · have filled : (kept.dropWhile isBlank).isEmpty = false := by
      rw [List.isEmpty_eq_false_iff, ne_eq, List.dropWhile_eq_nil_iff, ← List.all_eq_true]
      exact void
    have stays : ∀ more, trimStart (kept ++ more) = trimStart kept ++ more := by
      intro more
      rw [trimStart, List.dropWhile_append, filled]
      rfl
    rw [Text.trim, Text.trim, stays, stays, trimEnd_append_blanks _ blank]
    exact trimEnd_prefix (List.prefix_append _ rest)

end Framecode.Text
