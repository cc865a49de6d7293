import Framecode.Program
import Mathlib.Data.List.Forall2
import Mathlib.Data.List.Nodup

/-! The order of execution. Sorting a program by its orders keeps every instruction,
and instructions of one order stay in the order they stand in; nothing else decides
where an instruction goes. -/
namespace Framecode

/-- Whether instructions stand in the order of execution. -/
def Ordered (instructions : List Instruction) : Prop :=
  instructions.Pairwise fun left right => left.order ≤ right.order

/-- One list of instructions is another one sorted by order, with the instructions of
each order left as they stand. -/
structure StablySorted (before after : List Instruction) : Prop where
  kept : after.Perm before
  ordered : Ordered after
  stable : ∀ order, after.filter (·.order == order) = before.filter (·.order == order)

private theorem order_trans (first second third : Instruction)
    (left : decide (first.order ≤ second.order) = true)
    (right : decide (second.order ≤ third.order) = true) :
    decide (first.order ≤ third.order) = true := by
  rw [decide_eq_true_eq] at left right ⊢
  exact UInt32.le_trans left right

private theorem order_total (first second : Instruction) :
    (decide (first.order ≤ second.order) || decide (second.order ≤ first.order)) = true := by
  rw [Bool.or_eq_true, decide_eq_true_eq, decide_eq_true_eq]
  exact UInt32.le_total first.order second.order

theorem sorted_perm (program : Program) : program.sorted.Perm program.instructions :=
  List.mergeSort_perm _ _

theorem sorted_ordered (program : Program) : Ordered program.sorted := by
  have sorted := List.pairwise_mergeSort order_trans order_total program.instructions
  exact sorted.imp fun held => by simpa using held

theorem sorted_stable (program : Program) : StablySorted program.instructions program.sorted := by
  refine ⟨sorted_perm program, sorted_ordered program, fun order => ?_⟩
  -- The instructions of one order are a sorted sublist already, and there are as many of
  -- them before as after.
  have alike : (program.instructions.filter (·.order == order)).Pairwise
      fun left right => decide (left.order ≤ right.order) = true := by
    refine List.pairwise_of_forall_mem_list fun left inLeft right inRight => ?_
    have leftOrder : left.order = order := by simpa using (List.mem_filter.mp inLeft).2
    have rightOrder : right.order = order := by simpa using (List.mem_filter.mp inRight).2
    simp [leftOrder, rightOrder]
  have inside : (program.instructions.filter (·.order == order)).Sublist program.sorted :=
    List.sublist_mergeSort order_trans order_total alike List.filter_sublist
  have filtered := inside.filter (·.order == order)
  rw [List.filter_filter] at filtered
  simp only [Bool.and_self] at filtered
  have counted := ((sorted_perm program).filter (·.order == order)).length_eq
  exact (filtered.eq_of_length counted.symm).symm

/-- Where no order stands twice, there is one way only to put the instructions in the order
of execution. -/
theorem sorted_unique {program : Program} {after : List Instruction}
    (distinct : (program.instructions.map (·.order)).Nodup)
    (kept : after.Perm program.instructions) (ordered : Ordered after) : program.sorted = after := by
  refine List.Perm.eq_of_pairwise ?_ (sorted_ordered program) ordered
    ((sorted_perm program).trans kept.symm)
  intro left right inSorted inAfter below above
  have leftMember := (sorted_perm program).mem_iff.mp inSorted
  have rightMember := kept.mem_iff.mp inAfter
  exact List.inj_on_of_nodup_map distinct leftMember rightMember (UInt32.le_antisymm below above)

private theorem mem_iff_of_same_runs {left right : List Instruction}
    (same : ∀ order, left.filter (·.order == order) = right.filter (·.order == order))
    (instr : Instruction) : instr ∈ left ↔ instr ∈ right := by
  have members : instr ∈ left.filter (·.order == instr.order) ↔
      instr ∈ right.filter (·.order == instr.order) := by rw [same]
  simpa using members

private theorem head_order_le {first instr : Instruction} {rest : List Instruction}
    (ordered : Ordered (first :: rest)) (member : instr ∈ first :: rest) :
    first.order ≤ instr.order := by
  rcases List.mem_cons.mp member with rfl | later
  · exact UInt32.le_refl _
  · exact (List.pairwise_cons.mp ordered).1 instr later

/-- Ordered lists that have the same instructions of each order, one after the other, are the
same. -/
theorem eq_of_same_runs {left right : List Instruction} (leftOrdered : Ordered left)
    (rightOrdered : Ordered right)
    (same : ∀ order, left.filter (·.order == order) = right.filter (·.order == order)) :
    left = right := by
  have shared := mem_iff_of_same_runs same
  induction left generalizing right with
  | nil => exact (List.eq_nil_iff_forall_not_mem.mpr fun instr => (shared instr).not.mp (by simp)).symm
  | cons first rest ih =>
    have firstHeld := (shared first).mp List.mem_cons_self
    obtain ⟨head, tail, rfl⟩ := List.exists_cons_of_ne_nil (List.ne_nil_of_mem firstHeld)
    have orders : first.order = head.order :=
      UInt32.le_antisymm (head_order_le leftOrdered ((shared head).mpr List.mem_cons_self))
        (head_order_le rightOrdered firstHeld)
    have heads := same first.order
    rw [List.filter_cons_of_pos (by simp), List.filter_cons_of_pos (by simp [orders]),
      List.cons.injEq] at heads
    obtain ⟨rfl, tails⟩ := heads
    have sameTails : ∀ order, rest.filter (·.order == order) = tail.filter (·.order == order) := by
      intro order
      by_cases here : first.order = order
      · rw [← here, tails]
      · have others := same order
        rwa [List.filter_cons_of_neg (by simpa using here),
          List.filter_cons_of_neg (by simpa using here)] at others
    rw [ih leftOrdered.of_cons rightOrdered.of_cons sameTails (mem_iff_of_same_runs sameTails)]

/-- There is one way only to sort instructions by order and leave those of one order as they
stand. -/
theorem sorted_of_stablySorted {program : Program} {after : List Instruction}
    (stable : StablySorted program.instructions after) : program.sorted = after := by
  refine eq_of_same_runs (sorted_ordered program) stable.ordered fun order => ?_
  rw [(sorted_stable program).stable, stable.stable]

theorem sorted_eq_self_iff {program : Program} :
    program.sorted = program.instructions ↔ Ordered program.instructions := by
  constructor
  · intro same
    rw [← same]
    exact sorted_ordered program
  · intro ordered
    refine List.mergeSort_of_pairwise (ordered.imp fun held => ?_)
    simpa using held

/-- Programs whose instructions are related one by one, and have the same orders, are related
one by one in the order of execution too. -/
theorem sorted_related {relates : Instruction → Instruction → Prop} {program other : Program}
    (orders : ∀ left right, relates left right → right.order = left.order)
    (related : List.Forall₂ relates program.instructions other.instructions) :
    List.Forall₂ relates program.sorted other.sorted := by
  obtain ⟨alike, zipped⟩ := List.forall₂_iff_zip.mp related
  -- Both programs are sorted as one list of pairs.
  let pairs := program.instructions.zip other.instructions
  have left : pairs.map Prod.fst = program.instructions := List.map_fst_zip (Nat.le_of_eq alike)
  have right : pairs.map Prod.snd = other.instructions := List.map_snd_zip (Nat.le_of_eq alike.symm)
  let sorted := pairs.mergeSort fun first second => decide (first.1.order ≤ second.1.order)
  have leftSorted : sorted.map Prod.fst = program.sorted := by
    rw [Program.sorted, ← left]
    exact List.map_mergeSort fun _ _ _ _ => rfl
  have rightSorted : sorted.map Prod.snd = other.sorted := by
    rw [Program.sorted, ← right]
    refine List.map_mergeSort fun first firstMember second secondMember => ?_
    rw [orders _ _ (zipped firstMember), orders _ _ (zipped secondMember)]
  rw [← leftSorted, ← rightSorted, List.forall₂_map_left_iff, List.forall₂_map_right_iff,
    List.forall₂_same]
  intro pair member
  exact zipped ((List.mergeSort_perm pairs _).mem_iff.mp member)

end Framecode
