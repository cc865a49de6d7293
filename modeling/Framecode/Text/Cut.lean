/-! Cutting a text in two at the first occurrence of a mark. Nothing but the mark
is lost: the parts and the mark between them make up the text again. -/
namespace Framecode.Text

/-- The parts of a text before and after the first occurrence of a character,
which belongs to neither. -/
def cutAt? (mark : Char) : List Char → Option (List Char × List Char)
  | [] => none
  | c :: rest =>
    if c = mark then some ([], rest)
    else (cutAt? mark rest).map fun parts => (c :: parts.1, parts.2)

/-- What follows a lead that a text starts with. -/
def after? : List Char → List Char → Option (List Char)
  | [], text => some text
  | _ :: _, [] => none
  | l :: lead, c :: text => if l = c then after? lead text else none

/-- The parts of a text before and after the first occurrence of a row of
characters, which belongs to neither. -/
def cutAtAll? (mark : List Char) : List Char → Option (List Char × List Char)
  | [] => (after? mark []).map fun rest => ([], rest)
  | c :: rest =>
    match after? mark (c :: rest) with
    | some following => some ([], following)
    | none => (cutAtAll? mark rest).map fun parts => (c :: parts.1, parts.2)

/-- A text is its first part, the mark and its second part; the first part does
not hold the mark. -/
theorem eq_of_cutAt? {mark : Char} {text before following : List Char}
    (cut : cutAt? mark text = some (before, following)) :
    text = before ++ mark :: following ∧ mark ∉ before := by
  induction text generalizing before with
  | nil => simp [cutAt?] at cut
  | cons c rest ih =>
    rw [cutAt?] at cut
    split at cut
    · rename_i same
      simp only [Option.some.injEq, Prod.mk.injEq] at cut
      obtain ⟨rfl, rfl⟩ := cut
      simp [same]
    · rename_i other
      obtain ⟨parts, found, same⟩ := Option.map_eq_some_iff.mp cut
      obtain ⟨rfl, rfl⟩ := Prod.mk.injEq .. ▸ same
      obtain ⟨whole, absent⟩ := ih found
      refine ⟨by rw [whole]; rfl, ?_⟩
      simp only [List.mem_cons, not_or]
      exact ⟨fun same => other same.symm, absent⟩

/-- The second part is shorter than the text. -/
theorem length_lt_of_cutAt? {mark : Char} {text before following : List Char}
    (cut : cutAt? mark text = some (before, following)) : following.length < text.length := by
  rw [(eq_of_cutAt? cut).1]
  simp only [List.length_append, List.length_cons]
  omega

/-- A lead and what follows it make up the text. -/
theorem after?_eq_some_iff {lead text following : List Char} :
    after? lead text = some following ↔ text = lead ++ following := by
  induction lead generalizing text with
  | nil => simp [after?]
  | cons l lead ih =>
    cases text with
    | nil => simp [after?]
    | cons c text =>
      rw [after?]
      split
      · rename_i same
        simp [ih, same]
      · rename_i other
        simp only [List.cons_append, List.cons.injEq, false_iff, reduceCtorEq]
        exact fun both => other both.1.symm

/-- A text is its first part, the mark and its second part. -/
theorem eq_of_cutAtAll? {mark text before following : List Char}
    (cut : cutAtAll? mark text = some (before, following)) :
    text = before ++ mark ++ following := by
  induction text generalizing before with
  | nil =>
    obtain ⟨rest, found, same⟩ := Option.map_eq_some_iff.mp cut
    obtain ⟨rfl, rfl⟩ := Prod.mk.injEq .. ▸ same
    exact after?_eq_some_iff.mp found
  | cons c rest ih =>
    rw [cutAtAll?] at cut
    split at cut
    · rename_i here
      simp only [Option.some.injEq, Prod.mk.injEq] at cut
      obtain ⟨rfl, rfl⟩ := cut
      exact after?_eq_some_iff.mp here
    · obtain ⟨parts, found, same⟩ := Option.map_eq_some_iff.mp cut
      obtain ⟨rfl, rfl⟩ := Prod.mk.injEq .. ▸ same
      rw [ih found]
      simp

end Framecode.Text
