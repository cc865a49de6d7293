import Mathlib.Data.List.Nodup

/-! Look-ups in tables: lists of keys with what belongs to them. Where no key stands twice, a
look-up finds exactly what stands with its key. -/
namespace Framecode

variable {α β : Type} [BEq α] [LawfulBEq α] {table : List (α × β)} {key : α} {item : β}

/-- With distinct keys, the item of a key is the one that stands with it. -/
theorem lookup_some_iff (distinct : (table.map Prod.fst).Nodup) :
    table.lookup key = some item ↔ (key, item) ∈ table := by
  rw [List.lookup_eq_some_iff]
  constructor
  · rintro ⟨before, after, rfl, _⟩
    simp
  · intro member
    obtain ⟨before, after, rfl⟩ := List.append_of_mem member
    refine ⟨before, after, rfl, fun entry earlier => ?_⟩
    rw [List.map_append, List.map_cons, List.nodup_append] at distinct
    rw [bne_iff_ne]
    exact (distinct.2.2 entry.1 (List.mem_map_of_mem earlier) key List.mem_cons_self).symm

theorem lookup_none_iff : table.lookup key = none ↔ key ∉ table.map Prod.fst := by
  rw [List.lookup_eq_none_iff]
  simp only [bne_iff_ne, List.mem_map, not_exists, not_and]
  exact forall₂_congr fun entry _ => ne_comm

theorem lookup_isSome_iff : (table.lookup key).isSome = true ↔ key ∈ table.map Prod.fst := by
  rw [← not_iff_not, Bool.not_eq_true, Option.isSome_eq_false_iff, Option.isNone_iff_eq_none,
    lookup_none_iff]

end Framecode
