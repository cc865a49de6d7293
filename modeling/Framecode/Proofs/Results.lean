/-! Computations that may fail, in two parts. -/
namespace Framecode

/-- A computation in two parts succeeds exactly when both parts do. -/
theorem bind_ok_iff {ε α β : Type} {first : Except ε α} {second : α → Except ε β} {result : β} :
    (first >>= second) = .ok result ↔ ∃ value, first = .ok value ∧ second value = .ok result := by
  cases first with
  | error fault => simp [bind, Except.bind]
  | ok value => simp [bind, Except.bind]

/-- It fails with the first part, or with the second one once the first is done. -/
theorem bind_error_iff {ε α β : Type} {first : Except ε α} {second : α → Except ε β} {error : ε} :
    (first >>= second) = .error error ↔
      first = .error error ∨ ∃ value, first = .ok value ∧ second value = .error error := by
  cases first with
  | error fault => simp [bind, Except.bind]
  | ok value => simp [bind, Except.bind]

theorem map_ok_iff {ε α β : Type} {result : Except ε α} {change : α → β} {value : β} :
    result.map change = .ok value ↔ ∃ found, result = .ok found ∧ change found = value := by
  cases result <;> simp [Except.map]

/-- A change of the value changes no failure. -/
theorem map_error_iff {ε α β : Type} {result : Except ε α} {change : α → β} {error : ε} :
    result.map change = .error error ↔ result = .error error := by
  cases result <;> simp [Except.map]

/-- A change of the error changes no success. -/
theorem mapError_ok_iff {ε δ α : Type} {result : Except ε α} {change : ε → δ} {value : α} :
    result.mapError change = .ok value ↔ result = .ok value := by
  constructor
  · intro done
    cases result with
    | error error => cases done
    | ok found =>
      cases done
      rfl
  · rintro rfl
    rfl

theorem mapError_error_iff {ε δ α : Type} {result : Except ε α} {change : ε → δ} {changed : δ} :
    result.mapError change = .error changed ↔
      ∃ error, result = .error error ∧ change error = changed := by
  constructor
  · intro failed
    cases result with
    | ok found => cases failed
    | error error =>
      cases failed
      exact ⟨error, rfl, rfl⟩
  · rintro ⟨error, rfl, rfl⟩
    rfl

theorem map_bind_except {ε α β γ : Type} (first : Except ε α) (second : α → Except ε β)
    (change : β → γ) :
    (first >>= second).map change = first >>= fun value => (second value).map change := by
  cases first <;> rfl

theorem bind_map_except {ε α β γ : Type} (first : Except ε α) (change : α → β)
    (second : β → Except ε γ) :
    first.map change >>= second = first >>= fun value => second (change value) := by
  cases first <;> rfl

end Framecode
