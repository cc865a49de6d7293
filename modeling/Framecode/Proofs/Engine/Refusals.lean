import Framecode.Proofs.Engine.Prediction

/-! What loading accepts, and which fault it reports when it does not. A program can have many
faults at once, and loading looks for them in two passes over the instructions in the order of
execution: orders and arguments first, labels afterwards. The check compares an order only with
the one before it. In a sorted list that is enough to find every order that has been seen. -/
namespace Framecode.Engine

open Source

/-- An instruction has no place of its own behind others: its order is zero, or one of them has
that order already. -/
def Misplaced (before : List Instruction) (instr : Instruction) : Prop :=
  instr.order = 0 ∨ ∃ other ∈ before, other.order = instr.order

/-- What is wrong with an instruction that stands behind others. A wrong order comes before
wrong arguments. -/
inductive Wrong (before : List Instruction) (instr : Instruction) : Cause → Prop where
  | order (misplaced : Misplaced before instr) : Wrong before instr .invalidOrder
  | arguments (placed : ¬ Misplaced before instr) (malformed : instr.isWellFormed = false) :
      Wrong before instr (.malformedInstruction instr.opcode)

/-- The first instruction of a list that something is wrong with, and what that is. -/
def WrongFirst (instructions : List Instruction) (instr : Instruction) (cause : Cause) : Prop :=
  ∃ before following, instructions = before ++ instr :: following ∧ Wrong before instr cause ∧
    ∀ earlier other between found,
      before = earlier ++ other :: between → ¬ Wrong earlier other found

/-- A program that can be loaded: every instruction has an order of its own from one on and
arguments that fit its opcode, and no name is given by two LABELs. -/
structure Loadable (program : Program) : Prop where
  positive : ∀ instr ∈ program.instructions, 1 ≤ instr.order
  distinct : (program.instructions.map (·.order)).Nodup
  formed : ∀ instr ∈ program.instructions, instr.isWellFormed = true
  named : (Stats.labelNames program.instructions).Nodup

variable {program : Program} {before following instructions : List Instruction}
  {instr other : Instruction} {cause found : Cause} {last : UInt32}

/-! ## The first pass -/

private theorem wrong_unique (wrong : Wrong before instr cause) (again : Wrong before instr found) :
    cause = found := by
  cases wrong with
  | order misplaced =>
    cases again with
    | order => rfl
    | arguments placed => exact absurd misplaced placed
  | arguments placed =>
    cases again with
    | order misplaced => exact absurd misplaced placed
    | arguments => rfl

/-- Two places in one list are the same, or one of them is before the other. -/
theorem split_cases {α : Type} {before before' following following' : List α} {item item' : α}
    (same : before ++ item :: following = before' ++ item' :: following') :
    (before = before' ∧ item = item') ∨ (∃ between, before' = before ++ item :: between) ∨
      ∃ between, before = before' ++ item' :: between := by
  rcases List.append_eq_append_iff.mp same with ⟨between, rfl, tail⟩ | ⟨between, rfl, tail⟩
  · cases between with
    | nil =>
      obtain ⟨rfl, _⟩ := List.cons.inj tail
      exact .inl ⟨(List.append_nil before).symm, rfl⟩
    | cons first between =>
      obtain ⟨rfl, _⟩ := List.cons.inj tail
      exact .inr (.inl ⟨between, rfl⟩)
  · cases between with
    | nil =>
      obtain ⟨rfl, _⟩ := List.cons.inj tail
      exact .inl ⟨List.append_nil before', rfl⟩
    | cons first between =>
      obtain ⟨rfl, _⟩ := List.cons.inj tail
      exact .inr (.inr ⟨between, rfl⟩)

/-- Only one instruction is the first that something is wrong with. -/
theorem wrongFirst_unique (first : WrongFirst instructions instr cause)
    (again : WrongFirst instructions other found) : instr = other ∧ cause = found := by
  obtain ⟨before, following, rfl, wrong, sound⟩ := first
  obtain ⟨before', following', whole, wrong', sound'⟩ := again
  rcases split_cases whole with ⟨rfl, rfl⟩ | ⟨between, earlier⟩ | ⟨between, earlier⟩
  · exact ⟨rfl, wrong_unique wrong wrong'⟩
  · exact absurd wrong (sound' _ _ _ _ earlier)
  · exact absurd wrong' (sound _ _ _ _ earlier)

/-- The bound of a check behind some instructions: it is the highest of their orders, or zero
where there are none. -/
structure Latest (before : List Instruction) (last : UInt32) : Prop where
  held : last = 0 ∨ ∃ other ∈ before, other.order = last
  highest : ∀ other ∈ before, other.order ≤ last

private theorem latest_append (ordered : Ordered (before ++ instr :: following)) :
    Latest (before ++ [instr]) instr.order where
  held := .inr ⟨instr, by simp, rfl⟩
  highest := by
    intro other member
    rcases List.mem_append.mp member with earlier | here
    · exact (List.pairwise_append.mp ordered).2.2 other earlier instr List.mem_cons_self
    · rw [List.mem_singleton.mp here]
      exact UInt32.le_refl _

/-- In a sorted list, the bound tells whether an order has been seen before. -/
theorem le_latest_iff (latest : Latest before last)
    (ordered : Ordered (before ++ instr :: following)) :
    instr.order ≤ last ↔ Misplaced before instr := by
  constructor
  · intro below
    rcases latest.held with rfl | ⟨other, member, rfl⟩
    · exact .inl (UInt32.le_zero_iff.mp below)
    · have above := (List.pairwise_append.mp ordered).2.2 other member instr List.mem_cons_self
      exact .inr ⟨other, member, UInt32.le_antisymm above below⟩
  · rintro (zero | ⟨other, member, same⟩)
    · rw [zero]
      exact UInt32.zero_le
    · rw [← same]
      exact latest.highest other member

/-- A check that fails reports the first instruction that something is wrong with. -/
theorem wrong_of_check {rest : List Instruction} {fault : Fault} (latest : Latest before last)
    (ordered : Ordered (before ++ rest)) (refused : Code.check last rest = .error fault) :
    ∃ passed instr following cause, rest = passed ++ instr :: following ∧
      Wrong (before ++ passed) instr cause ∧ fault = ⟨instr.order, cause⟩ ∧
      ∀ earlier other between found, passed = earlier ++ other :: between →
        ¬ Wrong (before ++ earlier) other found := by
  induction rest generalizing before last with
  | nil => cases refused
  | cons instr rest ih =>
    have seen := le_latest_iff latest ordered
    rw [Code.check] at refused
    by_cases below : instr.order ≤ last
    · rw [if_pos below] at refused
      cases refused
      refine ⟨[], instr, rest, _, rfl, ?_, rfl, by simp⟩
      rw [List.append_nil]
      exact .order (seen.mp below)
    · rw [if_neg below] at refused
      have placed : ¬ Misplaced before instr := fun misplaced => below (seen.mpr misplaced)
      by_cases formed : instr.isWellFormed = true
      · rw [if_pos formed] at refused
        obtain ⟨passed, other, following, cause, rfl, wrong, same, sound⟩ :=
          ih (latest_append ordered) (by simpa using ordered) refused
        refine ⟨instr :: passed, other, following, cause, rfl, by simpa using wrong, same, ?_⟩
        intro earlier inner between found whole wrongBefore
        cases earlier with
        | nil =>
          cases whole
          rw [List.append_nil] at wrongBefore
          cases wrongBefore with
          | order misplaced => exact placed misplaced
          | arguments _ malformed => exact absurd formed (by simp [malformed])
        | cons first earlier =>
          cases whole
          exact sound earlier inner between found rfl (by simpa using wrongBefore)
      · rw [if_neg formed] at refused
        cases refused
        refine ⟨[], instr, rest, _, rfl, ?_, rfl, by simp⟩
        rw [List.append_nil]
        exact .arguments placed (by simpa using formed)

/-- Where a check passes, nothing is wrong with any instruction. -/
theorem not_wrong_of_check (passed : Code.check 0 instructions = .ok ())
    (whole : instructions = before ++ instr :: following) : ¬ Wrong before instr cause := by
  subst whole
  obtain ⟨increasing, formed⟩ := check_ok_iff.mp passed
  intro wrong
  cases wrong with
  | order misplaced =>
    obtain ⟨positive, rising⟩ := List.pairwise_cons.mp increasing
    rcases misplaced with zero | ⟨other, member, same⟩
    · have above := positive instr.order (by simp)
      rw [zero] at above
      exact UInt32.lt_irrefl 0 above
    · rw [List.map_append, List.pairwise_append] at rising
      have above := rising.2.2 other.order (List.mem_map_of_mem member) instr.order (by simp)
      rw [same] at above
      exact UInt32.lt_irrefl _ above
  | arguments _ malformed =>
    rw [formed instr (by simp)] at malformed
    cases malformed

/-- A check of sorted instructions that fails reports the first one that something is wrong
with. -/
theorem wrongFirst_of_refused {fault : Fault} (ordered : Ordered instructions)
    (refused : Code.check 0 instructions = .error fault) :
    ∃ instr cause, WrongFirst instructions instr cause ∧ fault = ⟨instr.order, cause⟩ := by
  obtain ⟨before, instr, following, cause, whole, wrong, same, sound⟩ :=
    @wrong_of_check [] 0 instructions fault ⟨.inl rfl, by simp⟩ ordered refused
  exact ⟨instr, cause, ⟨before, following, whole, wrong, sound⟩, same⟩

/-- The first of some sorted instructions that something is wrong with is the one that a check
reports. -/
theorem check_of_wrongFirst (ordered : Ordered instructions)
    (first : WrongFirst instructions instr cause) :
    Code.check 0 instructions = .error ⟨instr.order, cause⟩ := by
  cases checked : Code.check 0 instructions with
  | ok passed =>
    obtain ⟨before, following, whole, wrong, _⟩ := first
    exact absurd wrong (not_wrong_of_check checked whole)
  | error fault =>
    obtain ⟨other, found, again, rfl⟩ := wrongFirst_of_refused ordered checked
    obtain ⟨rfl, rfl⟩ := wrongFirst_unique first again
    rfl

/-! ## The second pass -/

/-- Only one LABEL is the first to give a name again. -/
theorem repeatsFirst_unique (first : RepeatsFirst instructions instr)
    (again : RepeatsFirst instructions other) : instr = other := by
  obtain ⟨before, following, rfl, labelled, distinct, given⟩ := first
  obtain ⟨before', following', whole, labelled', distinct', given'⟩ := again
  rcases split_cases whole with ⟨_, same⟩ | ⟨between, rfl⟩ | ⟨between, rfl⟩
  · exact same
  · exact absurd distinct' (not_nodup_of_repeated labelled given)
  · exact absurd distinct (not_nodup_of_repeated labelled' given')

section

variable (formed : ∀ instr ∈ instructions, instr.isWellFormed = true)
include formed

/-- Where a name is given again, the first LABEL that does so is reported. -/
theorem labels_of_repeatsFirst (first : RepeatsFirst instructions instr) :
    LabelTable.ofInstructions instructions =
      .error ⟨instr.order, .duplicateLabel (Stats.labelOf instr)⟩ := by
  cases built : LabelTable.ofInstructions instructions with
  | ok table =>
    have distinct := (labels_ok_iff formed).mp ⟨table, built⟩
    obtain ⟨before, following, rfl, labelled, _, given⟩ := first
    exact absurd distinct (not_nodup_of_repeated labelled given)
  | error fault =>
    obtain ⟨other, again, rfl⟩ := repeatsFirst_of_refused formed built
    rw [repeatsFirst_unique first again]

end

/-! ## Loading -/

/-- Sorted instructions pass the check exactly when they have orders of their own and fitting
arguments. -/
theorem check_sorted_iff : Code.check 0 program.sorted = .ok () ↔
    (∀ instr ∈ program.instructions, 1 ≤ instr.order) ∧
      (program.instructions.map (·.order)).Nodup ∧
      ∀ instr ∈ program.instructions, instr.isWellFormed = true := by
  have shared : ∀ instr, instr ∈ program.sorted ↔ instr ∈ program.instructions :=
    fun instr => (sorted_perm program).mem_iff
  have positive : ∀ order : UInt32, 0 < order ↔ 1 ≤ order := by
    intro order
    rw [UInt32.lt_iff_toNat_lt, UInt32.le_iff_toNat_le]
    exact Nat.lt_iff_add_one_le
  rw [check_ok_iff, List.pairwise_cons, ← ((sorted_perm program).map _).nodup_iff]
  simp only [List.forall_mem_map, shared, positive, and_assoc]
  refine and_congr_right fun _ => and_congr_left fun _ => ⟨fun rising => ?_, fun distinct => ?_⟩
  · exact List.nodup_iff_pairwise_ne.mpr (rising.imp fun below => UInt32.ne_of_lt below)
  · have ordered := List.pairwise_map.mpr (sorted_ordered program)
    exact (ordered.and distinct).imp fun ⟨below, apart⟩ => UInt32.lt_of_le_of_ne below apart

/-- A program is loaded exactly when it can be. -/
theorem load_ok_iff_loadable :
    (∃ code, Code.load program = .ok code) ↔ Loadable program := by
  have names : (Stats.labelNames program.sorted).Perm (Stats.labelNames program.instructions) :=
    ((sorted_perm program).filter _).map _
  constructor
  · rintro ⟨code, loaded⟩
    obtain ⟨checked, built, _⟩ := load_ok_iff.mp loaded
    obtain ⟨positive, distinct, formed⟩ := check_sorted_iff.mp checked
    have named := (labels_ok_iff (check_ok_iff.mp checked).2).mp ⟨_, built⟩
    exact ⟨positive, distinct, formed, names.nodup_iff.mp named⟩
  · intro loadable
    have checked := check_sorted_iff.mpr ⟨loadable.positive, loadable.distinct, loadable.formed⟩
    obtain ⟨table, built⟩ :=
      (labels_ok_iff (check_ok_iff.mp checked).2).mpr (names.nodup_iff.mpr loadable.named)
    exact ⟨⟨program.sorted, table⟩, load_ok_iff.mpr ⟨checked, built, rfl⟩⟩

/-- Loading accepts exactly the programs that can be loaded, and keeps their instructions in the
order of execution. Of a program that it refuses it reports the first instruction, in that
order, whose order is zero or has been seen or whose arguments are wrong. Only if there is none
does it report a LABEL, and then the first one that gives a name again. -/
theorem loading_reports_first_fault {sorted : List Instruction}
    (stable : StablySorted program.instructions sorted) :
    ((∃ code, Code.load program = .ok code) ↔ Loadable program) ∧
    (∀ code, Code.load program = .ok code → code.instructions = sorted) ∧
    (∀ instr cause, WrongFirst sorted instr cause →
      Code.load program = .error ⟨instr.order, cause⟩) ∧
    ((∀ instr cause, ¬ WrongFirst sorted instr cause) → ∀ instr, RepeatsFirst sorted instr →
      Code.load program = .error ⟨instr.order, .duplicateLabel (Stats.labelOf instr)⟩) ∧
    (¬ Loadable program →
      (∃ instr cause, WrongFirst sorted instr cause) ∨ ∃ instr, RepeatsFirst sorted instr) := by
  obtain rfl := sorted_of_stablySorted stable
  have ordered := sorted_ordered program
  refine ⟨load_ok_iff_loadable, fun code loaded => (load_ok loaded).1, ?_, ?_, ?_⟩
  · intro instr cause first
    simp only [Code.load, check_of_wrongFirst ordered first]
  · intro sound instr first
    cases checked : Code.check 0 program.sorted with
    | error fault =>
      obtain ⟨other, cause, wrong, _⟩ := wrongFirst_of_refused ordered checked
      exact absurd wrong (sound other cause)
    | ok passed =>
      simp only [Code.load, checked, labels_of_repeatsFirst (check_ok_iff.mp checked).2 first]
  · intro refused
    cases checked : Code.check 0 program.sorted with
    | error fault =>
      obtain ⟨instr, cause, wrong, _⟩ := wrongFirst_of_refused ordered checked
      exact .inl ⟨instr, cause, wrong⟩
    | ok passed =>
      cases built : LabelTable.ofInstructions program.sorted with
      | error fault =>
        obtain ⟨instr, first, _⟩ := repeatsFirst_of_refused (check_ok_iff.mp checked).2 built
        exact .inr ⟨instr, first⟩
      | ok table =>
        have loaded : Code.load program = .ok ⟨program.sorted, table⟩ :=
          load_ok_iff.mpr ⟨checked, built, rfl⟩
        exact absurd (load_ok_iff_loadable.mp ⟨_, loaded⟩) refused

/-- A program with two faults: a name is given twice, and behind that there is a DEFVAR of a
literal. Its list is not in the order of execution. -/
def twofold : Program :=
  ⟨[⟨5, .defVar, [⟨.literal .int, "1"⟩]⟩, ⟨4, .label, [⟨.label, "a"⟩]⟩,
    ⟨2, .label, [⟨.label, "a"⟩]⟩]⟩

theorem twofold_blames_arguments :
    StablySorted twofold.instructions twofold.instructions.reverse ∧
    RepeatsFirst twofold.instructions.reverse ⟨4, .label, [⟨.label, "a"⟩]⟩ ∧
    Code.load twofold = .error ⟨5, .malformedInstruction .defVar⟩ := by
  have sorted : twofold.sorted = twofold.instructions.reverse :=
    sorted_unique (by decide) (by decide) (by unfold Ordered; decide)
  have stable : StablySorted twofold.instructions twofold.instructions.reverse :=
    sorted ▸ sorted_stable twofold
  refine ⟨stable, ⟨[⟨2, .label, [⟨.label, "a"⟩]⟩], _, rfl, rfl, by decide, by decide⟩, ?_⟩
  refine (loading_reports_first_fault stable).2.2.1 ⟨5, .defVar, [⟨.literal .int, "1"⟩]⟩ _
    ⟨[⟨2, .label, [⟨.label, "a"⟩]⟩, ⟨4, .label, [⟨.label, "a"⟩]⟩], [], rfl, ?_, ?_⟩
  · exact .arguments (by simp [Misplaced]) rfl
  · exact fun _ _ _ _ whole => not_wrong_of_check rfl whole

end Framecode.Engine
