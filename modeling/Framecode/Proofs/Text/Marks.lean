import Framecode.Text.Cut
import Mathlib.Data.List.Induction
import Mathlib.Data.List.Infix

/-! Texts that are cut at a row of characters. Where the first mark stands is settled by the
text up to the end of it, so what follows it can be replaced, and a mark that is put behind a
text without one is the first. -/
namespace Framecode.Text

/-- Whether a text starts with a lead is settled by as many characters as the lead has. -/
theorem after_none_append {lead text : List Char} (long : lead.length ≤ text.length)
    {more : List Char} (other : List Char) (none : after? lead (text ++ more) = none) :
    after? lead (text ++ other) = .none := by
  rw [← Option.not_isSome_iff_eq_none, Option.isSome_iff_exists]
  rintro ⟨following, starts⟩
  have led : lead <+: text :=
    List.prefix_of_prefix_length_le ⟨following, (after?_eq_some_iff.mp starts).symm⟩
      (List.prefix_append text other) long
  obtain ⟨rest, rfl⟩ := led
  rw [List.append_assoc, after?_eq_some_iff.mpr rfl] at none
  cases none

private theorem cutAtAll_here (mark rest : List Char) :
    cutAtAll? mark (mark ++ rest) = some ([], rest) := by
  have starts : after? mark (mark ++ rest) = some rest := after?_eq_some_iff.mpr rfl
  cases whole : mark ++ rest with
  | nil =>
    rw [whole] at starts
    rw [cutAtAll?, starts]
    rfl
  | cons c tail =>
    rw [whole] at starts
    rw [cutAtAll?, starts]

/-- Where a text is cut depends on nothing that follows the mark. -/
theorem cutAtAll_again {mark text before following : List Char}
    (cut : cutAtAll? mark text = some (before, following)) (more : List Char) :
    cutAtAll? mark (before ++ mark ++ more) = some (before, more) := by
  induction text generalizing before with
  | nil =>
    obtain ⟨rest, found, same⟩ := Option.map_eq_some_iff.mp cut
    cases same
    exact cutAtAll_here mark more
  | cons c rest ih =>
    have whole := eq_of_cutAtAll? cut
    rw [cutAtAll?] at cut
    split at cut
    · cases cut
      exact cutAtAll_here mark more
    · rename_i absent
      obtain ⟨parts, found, same⟩ := Option.map_eq_some_iff.mp cut
      cases same
      have still : after? mark (c :: parts.1 ++ mark ++ more) = none := by
        rw [whole] at absent
        exact after_none_append (by simp; omega) more absent
      rw [List.cons_append, List.cons_append] at still ⊢
      rw [cutAtAll?, still]
      simp only [ih found, Option.map_some]

/-- A text is not cut when the mark stands nowhere in it. -/
theorem cutAtAll_none_iff {mark text : List Char} :
    cutAtAll? mark text = none ↔ ¬ mark <:+: text := by
  induction text with
  | nil =>
    cases mark with
    | nil => simp [cutAtAll?, after?]
    | cons m mark => simp [cutAtAll?, after?]
  | cons c rest ih =>
    rw [cutAtAll?, List.infix_cons_iff, not_or, ← ih]
    cases starts : after? mark (c :: rest) with
    | some following =>
      have led : mark <+: c :: rest := ⟨following, (after?_eq_some_iff.mp starts).symm⟩
      simp [led]
    | none =>
      have unled : ¬ mark <+: c :: rest := by
        rintro ⟨following, whole⟩
        rw [after?_eq_some_iff.mpr whole.symm] at starts
        cases starts
      simp [unled]

/-- A mark whose last character stands only at its end is found right after a text that it
does not stand in. -/
theorem cutAtAll_first {lead body : List Char} {last : Char} (once : last ∉ lead)
    (absent : ¬ (lead ++ [last]) <:+: body) (more : List Char) :
    cutAtAll? (lead ++ [last]) (body ++ (lead ++ [last]) ++ more) = some (body, more) := by
  induction body with
  | nil => exact cutAtAll_here _ more
  | cons c body ih =>
    rw [List.infix_cons_iff, not_or] at absent
    have unled : after? (lead ++ [last]) (c :: body ++ (lead ++ [last]) ++ more) = none := by
      rw [← Option.not_isSome_iff_eq_none, Option.isSome_iff_exists]
      rintro ⟨following, starts⟩
      rw [after?_eq_some_iff, List.append_assoc] at starts
      rcases List.append_eq_append_iff.mp starts with ⟨rest, whole, same⟩ | ⟨rest, whole, _⟩
      · -- The mark would start with the text, and the last character of it would come too early.
        have short : rest.length ≤ lead.length := by
          have := congrArg List.length whole
          simp only [List.length_append, List.length_cons, List.length_nil] at this
          omega
        have inLead : rest <+: lead := by
          refine List.prefix_of_prefix_length_le ⟨following, same.symm⟩ ?_ short
          rw [List.append_assoc]
          exact List.prefix_append lead _
        cases rest using List.reverseRecOn with
        | nil =>
          rw [List.append_nil] at whole
          exact absent.1 ⟨[], by rw [List.append_nil, whole]⟩
        | append_singleton rest final =>
          rw [← List.append_assoc] at whole
          have ends := (List.append_inj' whole rfl).2
          cases ends
          exact once (inLead.subset (by simp))
      · exact absent.1 ⟨rest, whole.symm⟩
    rw [List.cons_append, List.cons_append] at unled ⊢
    rw [cutAtAll?, unled]
    simp only [ih absent.2, Option.map_some]

end Framecode.Text
