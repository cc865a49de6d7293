import Framecode.Proofs.Names
import Framecode.Proofs.Source.Statistics
import Framecode.Proofs.Tables
import Framecode.Proofs.Text.Pieces
import Mathlib.Data.Set.Card
import Mathlib.Data.String.Basic

/-! Statistics by their definitions. They are gathered in one pass, but each of them is a
number of places, names or lines of the finished program or text: a jump is told apart by
where the first LABEL of its name stands, wherever the jump itself does, and the most
frequent mnemonics are those that no other one outnumbers. -/
namespace Framecode.Source

/-! ## Places in a program -/

/-- A program has a LABEL of some name at an index. -/
def LabelAt (program : Program) (name : String) (index : Nat) : Prop :=
  ∃ instr, program.instructions[index]? = some instr ∧ instr.opcode = .label ∧
    Stats.labelOf instr = name

/-- The first LABEL of some name is at an index. -/
def FirstLabelAt (program : Program) (name : String) (index : Nat) : Prop :=
  LabelAt program name index ∧ ∀ earlier < index, ¬ LabelAt program name earlier

/-- A program has a jump or a call to some label at an index. -/
def JumpAt (program : Program) (name : String) (index : Nat) : Prop :=
  ∃ instr, program.instructions[index]? = some instr ∧ instr.opcode ∈ Engine.jumpOpcodes ∧
    Stats.labelOf instr = name

/-- The number of instructions with a mnemonic. -/
def occurrences (program : Program) (mnemonic : String) : Nat :=
  program.instructions.countP (·.opcode.mnemonic = mnemonic)

private theorem findIdx_label_iff {program : Program} {name : String} {index : Nat} :
    program.instructions.findIdx? (Stats.labels? name) = some index ↔
      FirstLabelAt program name index := by
  have here : ∀ place, (∃ inside : place < program.instructions.length,
      Stats.labels? name program.instructions[place] = true) ↔ LabelAt program name place := by
    intro place
    simp only [LabelAt, List.getElem?_eq_some_iff, Stats.labels?, Bool.and_eq_true,
      decide_eq_true_eq]
    constructor
    · rintro ⟨inside, labelled, named⟩
      exact ⟨_, ⟨inside, rfl⟩, labelled, named⟩
    · rintro ⟨_, ⟨inside, rfl⟩, labelled, named⟩
      exact ⟨inside, labelled, named⟩
  rw [List.findIdx?_eq_some_iff_getElem, FirstLabelAt, ← here]
  constructor
  · rintro ⟨inside, found, first⟩
    refine ⟨⟨inside, found⟩, fun earlier less labelled => ?_⟩
    obtain ⟨_, again⟩ := (here earlier).mpr labelled
    exact first earlier less again
  · rintro ⟨⟨inside, found⟩, first⟩
    exact ⟨inside, found, fun earlier less again =>
      first earlier less ((here earlier).mp ⟨_, again⟩)⟩

private theorem findIdx_label_none_iff {program : Program} {name : String} :
    program.instructions.findIdx? (Stats.labels? name) = none ↔
      ∀ index, ¬ LabelAt program name index := by
  rw [List.findIdx?_eq_none_iff]
  constructor
  · rintro none index ⟨instr, held, labelled, named⟩
    have other := none instr (List.mem_of_getElem? held)
    simp [Stats.labels?, labelled, named] at other
  · intro absent instr member
    obtain ⟨index, held⟩ := List.getElem?_of_mem member
    rw [← Bool.not_eq_true, Stats.labels?, Bool.and_eq_true, decide_eq_true_eq, decide_eq_true_eq]
    rintro ⟨labelled, named⟩
    exact absent index ⟨instr, held, labelled, named⟩

/-- An instruction cannot both be a LABEL and go to one. -/
theorem not_labelAt_of_jumpAt {program : Program} {name other : String} {index : Nat}
    (jumps : JumpAt program name index) : ¬ LabelAt program other index := by
  rintro ⟨instr, held, labelled, _⟩
  obtain ⟨again, same, opcode, _⟩ := jumps
  cases held.symm.trans same
  rw [labelled] at opcode
  exact absurd opcode (by decide)

namespace Stats

/-! ## One pass -/

/-- What one more instruction adds to the other counters. -/
theorem record_counters (stats : Stats) (instr : Instruction) :
    (stats.record instr).counts = count instr.opcode stats.counts ∧
    (stats.record instr).jumps = stats.jumps +
      if instr.opcode = .ret ∨ instr.opcode ∈ Engine.jumpOpcodes then 1 else 0 := by
  obtain ⟨order, opcode, args⟩ := instr
  cases opcode with
  | label =>
    simp only [record]
    split <;> exact ⟨rfl, rfl⟩
  | _ => exact ⟨rfl, rfl⟩

/-- The number of comments goes through a pass unchanged and has no part in it. -/
theorem foldl_comments (instructions : List Instruction) (stats : Stats) (comments : Nat) :
    instructions.foldl record { stats with comments } =
      { instructions.foldl record stats with comments } := by
  induction instructions generalizing stats with
  | nil => rfl
  | cons instr rest ih =>
    have apart : record { stats with comments } instr = { stats.record instr with comments } := by
      obtain ⟨order, opcode, args⟩ := instr
      cases opcode with
      | label =>
        simp only [record]
        split <;> rfl
      | _ => rfl
    rw [List.foldl_cons, List.foldl_cons, apart, ih]

private theorem ofProgram_comments (program : Program) (comments others : Nat) :
    ofProgram program others = { ofProgram program comments with comments := others } :=
  foldl_comments program.instructions { comments } others

/-- What a pass over some instructions adds to the plain counters. -/
theorem foldl_counters (instructions : List Instruction) (stats : Stats) :
    (instructions.foldl record stats).loc = stats.loc + instructions.length ∧
    (instructions.foldl record stats).jumps = stats.jumps +
      instructions.countP fun instr =>
        instr.opcode = .ret ∨ instr.opcode ∈ Engine.jumpOpcodes := by
  induction instructions generalizing stats with
  | nil => exact ⟨rfl, rfl⟩
  | cons instr rest ih =>
    obtain ⟨_, jumps⟩ := record_counters stats instr
    obtain ⟨loc, _⟩ := record_adds stats instr
    obtain ⟨laterLoc, laterJumps⟩ := ih (stats.record instr)
    rw [List.foldl_cons, laterLoc, laterJumps, loc, jumps, List.length_cons, List.countP_cons]
    refine ⟨by omega, ?_⟩
    simp only [decide_eq_true_eq]
    omega

/-! ## Labels -/

/-- No label is defined twice in the statistics. -/
theorem definitions_distinct (instructions : List Instruction) {stats : Stats}
    (distinct : (stats.definitions.map Prod.fst).Nodup) :
    ((instructions.foldl record stats).definitions.map Prod.fst).Nodup := by
  induction instructions generalizing stats with
  | nil => exact distinct
  | cons instr rest ih =>
    refine ih ?_
    obtain ⟨order, opcode, args⟩ := instr
    cases opcode with
    | label =>
      simp only [record]
      split
      · exact distinct
      · rename_i fresh
        rw [Bool.not_eq_true, Option.isSome_eq_false_iff, Option.isNone_iff_eq_none,
          lookup_none_iff] at fresh
        rw [List.map_append, List.map_cons, List.map_nil, ← List.concat_eq_append]
        exact distinct.concat fresh
    | _ => exact distinct

/-- The labels counted are the names that the program has LABELs of. -/
theorem labels_eq_ncard (program : Program) (comments : Nat) :
    (ofProgram program comments).labels =
      Set.ncard {name | ∃ index, LabelAt program name index} := by
  have distinct : ((ofProgram program comments).definitions.map Prod.fst).Nodup :=
    definitions_distinct program.instructions List.nodup_nil
  have names : {name | ∃ index, LabelAt program name index} =
      ((ofProgram program comments).definitions.map Prod.fst).toFinset := by
    ext name
    rw [Set.mem_ofPred_eq, List.coe_toFinset, Set.mem_ofPred_eq, ← not_iff_not, ← lookup_none_iff,
      definition_ofProgram, findIdx_label_none_iff, not_exists]
  rw [names, Set.ncard_coe_finset, List.toFinset_card_of_nodup distinct, List.length_map, labels]

/-! ## Jumps -/

private theorem targets_distinct (program : Program) (comments : Nat) :
    ((ofProgram program comments).targets.map Prod.snd).Nodup := by
  have places : program.instructions.zipIdx.Pairwise fun left right => left.2 ≠ right.2 := by
    refine List.pairwise_map.mp ?_
    rw [List.zipIdx_map_snd]
    exact List.nodup_range'
  rw [targets_ofProgram]
  refine List.pairwise_map.mpr (places.filterMap target? ?_)
  intro left right apart target found other foundToo
  rw [target?, Option.ite_none_right_eq_some] at found foundToo
  obtain ⟨_, same⟩ := found
  obtain ⟨_, sameToo⟩ := foundToo
  cases same
  cases sameToo
  exact apart

/-- The jumps that a count goes over are as many as the indexes of such jumps. -/
theorem countTargets_eq_ncard (program : Program) (comments : Nat)
    (holds : Option Nat → Nat → Bool) :
    (ofProgram program comments).countTargets holds =
      Set.ncard {index | ∃ name, JumpAt program name index ∧
        holds (program.instructions.findIdx? (labels? name)) index = true} := by
  have distinct : ((ofProgram program comments).counted holds).Nodup :=
    (targets_distinct program comments).sublist (List.filter_sublist.map Prod.snd)
  have places : {index | ∃ name, JumpAt program name index ∧
      holds (program.instructions.findIdx? (labels? name)) index = true} =
      ((ofProgram program comments).counted holds).toFinset := by
    ext index
    simp only [Set.mem_ofPred_eq, List.coe_toFinset, mem_counted_iff, definition_ofProgram, JumpAt]
    constructor
    · rintro ⟨_, ⟨instr, held, jumps, rfl⟩, condition⟩
      exact ⟨instr, held, jumps, condition⟩
    · rintro ⟨instr, held, jumps, condition⟩
      exact ⟨_, ⟨instr, held, jumps, rfl⟩, condition⟩
  rw [places, Set.ncard_coe_finset, List.toFinset_card_of_nodup distinct, counted_length]

/-- A condition on the place of a label holds exactly when there is a first LABEL and it
holds of the index of that. -/
theorem any_first_iff {program : Program} {name : String} {holds : Nat → Bool} :
    (program.instructions.findIdx? (labels? name)).any holds = true ↔
      ∃ place, FirstLabelAt program name place ∧ holds place = true := by
  simp only [Option.any_eq_true, findIdx_label_iff]

private theorem fwJumps_eq_ncard (program : Program) (comments : Nat) :
    (ofProgram program comments).fwJumps = Set.ncard {index | ∃ name place,
      JumpAt program name index ∧ FirstLabelAt program name place ∧ index < place} := by
  rw [fwJumps, countTargets_eq_ncard]
  simp only [any_first_iff, decide_eq_true_eq, exists_and_left]

private theorem backJumps_eq_ncard (program : Program) (comments : Nat) :
    (ofProgram program comments).backJumps = Set.ncard {index | ∃ name place,
      JumpAt program name index ∧ FirstLabelAt program name place ∧ place < index} := by
  rw [backJumps, countTargets_eq_ncard]
  simp only [any_first_iff, decide_eq_true_eq, exists_and_left]

private theorem badJumps_eq_ncard (program : Program) (comments : Nat) :
    (ofProgram program comments).badJumps = Set.ncard {index | ∃ name,
      JumpAt program name index ∧ ∀ place, ¬ LabelAt program name place} := by
  rw [badJumps, countTargets_eq_ncard]
  simp only [Option.isNone_iff_eq_none, findIdx_label_none_iff]

private theorem targets_length (program : Program) (comments : Nat) :
    (ofProgram program comments).targets.length =
      program.instructions.countP (·.opcode ∈ Engine.jumpOpcodes) := by
  rw [targets_ofProgram, List.length_filterMap_eq_countP]
  have firsts : program.instructions = program.instructions.zipIdx.map Prod.fst :=
    (List.zipIdx_map_fst 0 _).symm
  nth_rewrite 2 [firsts]
  rw [List.countP_map]
  refine List.countP_congr fun placed _ => ?_
  rw [target?]
  split <;> simp_all

/-- Where of three conditions exactly one holds of every item, the numbers of items that they
hold of add up to the number of items. -/
theorem countP_of_three {α : Type} {items : List α} {first second third : α → Bool}
    (one : ∀ item ∈ items, (first item).toNat + (second item).toNat + (third item).toNat = 1) :
    items.countP first + items.countP second + items.countP third = items.length := by
  induction items with
  | nil => rfl
  | cons item rest ih =>
    obtain ⟨here, later⟩ := List.forall_mem_cons.mp one
    have together := ih later
    simp only [List.countP_cons, List.length_cons]
    cases inFirst : first item <;> cases inSecond : second item <;> cases inThird : third item <;>
      simp [inFirst, inSecond, inThird] at here ⊢ <;> omega

/-- Every jump or call goes forward, back or nowhere. -/
theorem targets_split (program : Program) (comments : Nat) :
    (ofProgram program comments).fwJumps + (ofProgram program comments).backJumps +
      (ofProgram program comments).badJumps = (ofProgram program comments).targets.length := by
  refine countP_of_three fun target member => ?_
  obtain ⟨name, index⟩ := target
  have jumps : JumpAt program name index := mem_targets_iff.mp member
  rw [definition_ofProgram]
  cases found : program.instructions.findIdx? (labels? name) with
  | none => rfl
  | some place =>
    have apart : place ≠ index := by
      rintro rfl
      exact not_labelAt_of_jumpAt jumps (findIdx_label_iff.mp found).1
    rcases Nat.lt_or_gt_of_ne apart with back | forward
    · simp [back, Nat.not_lt.mpr back.le]
    · simp [forward, Nat.not_lt.mpr (Nat.le_of_lt forward)]

/-- What is counted as a jump is a RETURN, or a jump or call of one of the three sorts. -/
theorem jumps_split (program : Program) (comments : Nat) :
    (ofProgram program comments).fwJumps + (ofProgram program comments).backJumps +
      (ofProgram program comments).badJumps + program.instructions.countP (·.opcode = .ret) =
        program.instructions.countP fun instr =>
          instr.opcode = .ret ∨ instr.opcode ∈ Engine.jumpOpcodes := by
  rw [targets_split, targets_length]
  induction program.instructions with
  | nil => rfl
  | cons instr rest ih =>
    have apart : instr.opcode = .ret → instr.opcode ∉ Engine.jumpOpcodes := by
      intro returns
      rw [returns]
      decide
    simp only [List.countP_cons, decide_eq_true_eq] at ih ⊢
    by_cases returns : instr.opcode = .ret
    · rw [if_neg (apart returns), if_pos returns, if_pos (Or.inl returns)]
      omega
    · simp only [returns, false_or, if_false]
      omega

/-! ## Frequencies -/

private theorem lookup_count (opcode other : Opcode) (counts : List (Opcode × Nat)) :
    (count opcode counts).lookup other =
      if other = opcode then some ((counts.lookup opcode).getD 0 + 1) else counts.lookup other := by
  induction counts with
  | nil =>
    by_cases same : other = opcode
    · simp [count, same]
    · simp [count, List.lookup_cons, beq_eq_false_iff_ne.mpr same, same]
  | cons entry rest ih =>
    obtain ⟨first, occurrences⟩ := entry
    rw [count]
    by_cases here : first = opcode
    · subst here
      by_cases same : other = first
      · simp [same]
      · simp [List.lookup_cons, beq_eq_false_iff_ne.mpr same, same]
    · rw [if_neg here, List.lookup_cons, List.lookup_cons, List.lookup_cons, ih,
        beq_eq_false_iff_ne.mpr (Ne.symm here)]
      by_cases same : other = opcode
      · subst same
        simp [beq_eq_false_iff_ne.mpr (Ne.symm here)]
      · simp [same]

private theorem keys_count (opcode : Opcode) (counts : List (Opcode × Nat)) :
    (count opcode counts).map Prod.fst =
      if opcode ∈ counts.map Prod.fst then counts.map Prod.fst
      else counts.map Prod.fst ++ [opcode] := by
  induction counts with
  | nil => rfl
  | cons entry rest ih =>
    rw [count]
    by_cases here : entry.1 = opcode
    · rw [if_pos here, if_pos (by simp [here]), List.map_cons, List.map_cons, here]
    · rw [if_neg here, List.map_cons, List.map_cons, ih]
      by_cases later : opcode ∈ rest.map Prod.fst
      · rw [if_pos later, if_pos (List.mem_cons_of_mem _ later)]
      · rw [if_neg later, if_neg (List.not_mem_cons_of_ne_of_not_mem (Ne.symm here) later)]
        rfl

/-- Counts are those of some instructions: no opcode stands twice, and each one that occurs
stands with the number of its occurrences. -/
structure Tallied (counts : List (Opcode × Nat)) (instructions : List Instruction) : Prop where
  distinct : (counts.map Prod.fst).Nodup
  exact : ∀ opcode, (counts.lookup opcode).getD 0 = instructions.countP (·.opcode = opcode)
  positive : ∀ opcode, counts.lookup opcode ≠ some 0

private theorem tallied_count {counts : List (Opcode × Nat)} {instructions : List Instruction}
    (tallied : Tallied counts instructions) (instr : Instruction) :
    Tallied (count instr.opcode counts) (instructions ++ [instr]) := by
  refine ⟨?_, fun opcode => ?_, fun opcode => ?_⟩
  · rw [keys_count]
    split
    · exact tallied.distinct
    · rename_i fresh
      rw [← List.concat_eq_append]
      exact tallied.distinct.concat fresh
  · rw [lookup_count, List.countP_append]
    by_cases same : opcode = instr.opcode
    · simp [same, tallied.exact]
    · simp [same, Ne.symm same, tallied.exact]
  · rw [lookup_count]
    split
    · simp
    · exact tallied.positive opcode

private theorem tallied_foldl (instructions : List Instruction) {stats : Stats}
    {before : List Instruction}
    (tallied : Tallied stats.counts before) :
    Tallied (instructions.foldl record stats).counts (before ++ instructions) := by
  induction instructions generalizing stats before with
  | nil => simpa using tallied
  | cons instr rest ih =>
    have next : Tallied (stats.record instr).counts (before ++ [instr]) := by
      rw [(record_counters stats instr).1]
      exact tallied_count tallied instr
    simpa using ih next

private theorem tallied_ofProgram (program : Program) (comments : Nat) :
    Tallied (ofProgram program comments).counts program.instructions := by
  have empty : Tallied [] [] := ⟨List.nodup_nil, fun _ => rfl, fun _ => nofun⟩
  exact @tallied_foldl program.instructions { comments } [] empty

private theorem occurrences_mnemonic (program : Program) (opcode : Opcode) :
    occurrences program opcode.mnemonic = program.instructions.countP (·.opcode = opcode) :=
  List.countP_congr fun instr _ => by
    rw [decide_eq_true_eq, decide_eq_true_eq, Opcode.mnemonic_injective.eq_iff]

private theorem opcode_of_occurs {program : Program} {mnemonic : String}
    (occurs : 0 < occurrences program mnemonic) :
    ∃ opcode : Opcode, opcode.mnemonic = mnemonic := by
  obtain ⟨instr, _, named⟩ := List.countP_pos_iff.mp occurs
  exact ⟨instr.opcode, by simpa using named⟩

/-- The table of counts holds the opcodes that occur, each with how often it does. -/
theorem mem_counts_iff {program : Program} {comments : Nat} {opcode : Opcode} {times : Nat} :
    (opcode, times) ∈ (ofProgram program comments).counts ↔
      0 < times ∧ occurrences program opcode.mnemonic = times := by
  have tallied := tallied_ofProgram program comments
  rw [← lookup_some_iff tallied.distinct, occurrences_mnemonic, ← tallied.exact]
  constructor
  · intro found
    refine ⟨Nat.pos_of_ne_zero ?_, by rw [found, Option.getD_some]⟩
    rintro rfl
    exact tallied.positive opcode found
  · rintro ⟨positive, rfl⟩
    cases found : (ofProgram program comments).counts.lookup opcode with
    | none => simp [found] at positive
    | some times => rfl

/-- The highest count bounds every count and is one of them, if there is any. -/
theorem highest_bounds (stats : Stats) :
    (∀ entry ∈ stats.counts, entry.2 ≤ stats.highest) ∧
      (stats.counts ≠ [] → ∃ opcode : Opcode, (opcode, stats.highest) ∈ stats.counts) := by
  rw [highest, List.foldl_max]
  cases found : (stats.counts.map Prod.snd).max? with
  | none =>
    have empty : stats.counts = [] := by simpa using found
    simp [empty]
  | some most =>
    obtain ⟨attained, bounds⟩ := List.max?_eq_some_iff.mp found
    rw [Option.getD_some, Nat.zero_max]
    refine ⟨fun entry member => bounds entry.2 (List.mem_map_of_mem member), fun _ => ?_⟩
    simpa using List.mem_map.mp attained

private theorem mem_frequent {stats : Stats} {mnemonic : String} :
    mnemonic ∈ stats.frequent ↔
      ∃ opcode : Opcode, (opcode, stats.highest) ∈ stats.counts ∧ opcode.mnemonic = mnemonic := by
  simp only [frequent, List.mem_mergeSort, List.mem_map, List.mem_filter, decide_eq_true_eq]
  constructor
  · rintro ⟨⟨opcode, times⟩, ⟨member, rfl⟩, named⟩
    exact ⟨opcode, member, named⟩
  · rintro ⟨opcode, member, named⟩
    exact ⟨(opcode, stats.highest), ⟨member, rfl⟩, named⟩

/-- The most frequent mnemonics are those that occur and that no other one outnumbers. -/
theorem mem_frequent_iff {program : Program} {comments : Nat} {mnemonic : String} :
    mnemonic ∈ (ofProgram program comments).frequent ↔ 0 < occurrences program mnemonic ∧
      ∀ other, occurrences program other ≤ occurrences program mnemonic := by
  obtain ⟨bounds, attained⟩ := highest_bounds (ofProgram program comments)
  have below : ∀ other, occurrences program other ≤ (ofProgram program comments).highest := by
    intro other
    rcases Nat.eq_zero_or_pos (occurrences program other) with zero | occurs
    · omega
    · obtain ⟨opcode, rfl⟩ := opcode_of_occurs occurs
      exact bounds (opcode, _) (mem_counts_iff.mpr ⟨occurs, rfl⟩)
  rw [mem_frequent]
  constructor
  · rintro ⟨opcode, member, rfl⟩
    obtain ⟨positive, exact⟩ := mem_counts_iff.mp member
    rw [exact]
    exact ⟨positive, below⟩
  · rintro ⟨occurs, most⟩
    obtain ⟨opcode, rfl⟩ := opcode_of_occurs occurs
    have member : (opcode, _) ∈ (ofProgram program comments).counts :=
      mem_counts_iff.mpr ⟨occurs, rfl⟩
    obtain ⟨other, otherMember⟩ := attained (List.ne_nil_of_mem member)
    have same : occurrences program opcode.mnemonic = (ofProgram program comments).highest := by
      have atMost := most other.mnemonic
      rw [(mem_counts_iff.mp otherMember).2] at atMost
      have atLeast := below opcode.mnemonic
      omega
    exact ⟨opcode, mem_counts_iff.mpr ⟨same ▸ occurs, same⟩, rfl⟩

/-- The most frequent mnemonics stand in strictly alphabetical order. -/
theorem frequent_increasing (program : Program) (comments : Nat) :
    (ofProgram program comments).frequent.Pairwise (· < ·) := by
  have sorted : (ofProgram program comments).frequent.Pairwise (· ≤ ·) :=
    List.pairwise_mergeSort' (· ≤ ·) _
  have kept : (((ofProgram program comments).counts.filter
      (·.2 = (ofProgram program comments).highest)).map Prod.fst).Nodup :=
    (tallied_ofProgram program comments).distinct.sublist (List.filter_sublist.map Prod.fst)
  have distinct : (ofProgram program comments).frequent.Nodup := by
    rw [frequent, (List.mergeSort_perm _ _).nodup_iff]
    have named := kept.map Opcode.mnemonic_injective
    rwa [List.map_map] at named
  exact sorted.imp₂ (fun _ _ => lt_of_le_of_ne) distinct

private theorem frequent_nil_iff {program : Program} {comments : Nat} :
    (ofProgram program comments).frequent = [] ↔ program.instructions = [] := by
  constructor
  · intro empty
    by_contra filled
    obtain ⟨instr, rest, whole⟩ := List.exists_cons_of_ne_nil filled
    have occurs : 0 < occurrences program instr.opcode.mnemonic :=
      List.countP_pos_iff.mpr ⟨instr, by simp [whole], by simp⟩
    have member : (instr.opcode, _) ∈ (ofProgram program comments).counts :=
      mem_counts_iff.mpr ⟨occurs, rfl⟩
    obtain ⟨opcode, held⟩ := (highest_bounds _).2 (List.ne_nil_of_mem member)
    have frequent := mem_frequent.mpr ⟨opcode, held, rfl⟩
    rw [empty] at frequent
    cases frequent
  · intro empty
    rw [List.eq_nil_iff_forall_not_mem]
    intro mnemonic member
    have occurs := (mem_frequent_iff.mp member).1
    simp [occurrences, empty] at occurs

end Stats

/-! ## Comments -/

/-- A carriage return at the end of a line has no part in whether the line has a comment. -/
theorem commented_dropReturn (line : List Char) :
    '#' ∈ Text.dropReturn line ↔ '#' ∈ line := by
  rcases Text.dropReturn_cases line with same | same
  · rw [same]
  · nth_rewrite 2 [same]
    simp

/-- The lines with a comment are the pieces of the text between line feeds that hold a number
sign. -/
theorem commentedLines_eq_countP (text : List Char) :
    commentedLines (Text.lines text) = (text.splitOn '\n').countP ('#' ∈ ·) := by
  obtain ⟨closed, last, pieces, lines⟩ := Text.lines_eq_pieces text
  rw [commentedLines, lines, pieces, List.countP_append, List.countP_append, List.countP_map]
  congr 1
  · refine List.countP_congr fun line _ => ?_
    simp [commented_dropReturn]
  · split <;> simp_all

/-! ## All statistics of a text -/

/-- Statistics are those of a program, each by its own definition. -/
structure Stats.Describes (stats : Stats) (program : Program) : Prop where
  loc : stats.loc = program.instructions.length
  labels : stats.labels = Set.ncard {name | ∃ index, LabelAt program name index}
  jumps : stats.jumps = program.instructions.countP fun instr =>
    instr.opcode = .ret ∨ instr.opcode ∈ Engine.jumpOpcodes
  forward : stats.fwJumps = Set.ncard {index | ∃ name place,
    JumpAt program name index ∧ FirstLabelAt program name place ∧ index < place}
  back : stats.backJumps = Set.ncard {index | ∃ name place,
    JumpAt program name index ∧ FirstLabelAt program name place ∧ place < index}
  bad : stats.badJumps = Set.ncard {index | ∃ name,
    JumpAt program name index ∧ ∀ place, ¬ LabelAt program name place}
  split : stats.fwJumps + stats.backJumps + stats.badJumps +
    program.instructions.countP (·.opcode = .ret) = stats.jumps
  increasing : stats.frequent.Pairwise (· < ·)
  frequent : ∀ mnemonic, mnemonic ∈ stats.frequent ↔ 0 < occurrences program mnemonic ∧
    ∀ other, occurrences program other ≤ occurrences program mnemonic
  empty : stats.frequent = [] ↔ program.instructions = []

private theorem Stats.describes_ofProgram (program : Program) (comments : Nat) :
    (ofProgram program comments).Describes program := by
  obtain ⟨loc, jumps⟩ := foldl_counters program.instructions { comments }
  have allJumps : (ofProgram program comments).jumps = program.instructions.countP fun instr =>
      instr.opcode = .ret ∨ instr.opcode ∈ Engine.jumpOpcodes := jumps.trans (Nat.zero_add _)
  exact {
    loc := loc.trans (Nat.zero_add _)
    labels := labels_eq_ncard program comments
    jumps := allJumps
    forward := fwJumps_eq_ncard program comments
    back := backJumps_eq_ncard program comments
    bad := badJumps_eq_ncard program comments
    split := (jumps_split program comments).trans allJumps.symm
    increasing := frequent_increasing program comments
    frequent := fun _ => mem_frequent_iff
    empty := frequent_nil_iff }

/-- The statistics of a text describe the program that it spells, and its comments are its
lines that hold a number sign. Texts of one program differ in their comments only. -/
theorem statistics_describe_program {text : String} {program : Program} {stats : Stats}
    (assembled : assembleWithStats text = .ok (program, stats)) :
    stats.Describes program ∧
    stats.comments = (text.toList.splitOn '\n').countP ('#' ∈ ·) ∧
    ∀ other otherStats, assembleWithStats other = .ok (program, otherStats) →
      otherStats = { stats with comments := otherStats.comments } := by
  obtain ⟨_, rfl⟩ := assembleWithStats_ok_iff.mp assembled
  refine ⟨Stats.describes_ofProgram program _, ?_, fun other otherStats again => ?_⟩
  · rw [← commentedLines_eq_countP]
    exact congrArg Stats.comments (Stats.foldl_comments program.instructions {} _)
  · obtain ⟨_, rfl⟩ := assembleWithStats_ok_iff.mp again
    have same := Stats.ofProgram_comments program
      (commentedLines (Text.lines text.toList)) (commentedLines (Text.lines other.toList))
    rw [same]

/-- A source text with a label that stands twice and a jump of every sort. -/
def jumpyText : String :=
  ".IPPcode24 # head\nJUMP end\nLABEL a\nLABEL a # again\nLABEL end\nJUMP a\nJUMP off\nRETURN"

/-- The program that it spells. -/
def jumpyProgram : Program :=
  .ofSequence [(.jump, [⟨.label, "end"⟩]), (.label, [⟨.label, "a"⟩]), (.label, [⟨.label, "a"⟩]),
    (.label, [⟨.label, "end"⟩]), (.jump, [⟨.label, "a"⟩]), (.jump, [⟨.label, "off"⟩]), (.ret, [])]

theorem jumpy_text_described :
    ∃ stats, assembleWithStats jumpyText = .ok (jumpyProgram, stats) ∧ stats.comments = 2 ∧
      stats.jumps = 4 ∧ stats.frequent = ["JUMP", "LABEL"] ∧ stats.Describes jumpyProgram ∧
      Set.ncard {name | ∃ index, LabelAt jumpyProgram name index} = 2 ∧
      Set.ncard {index | ∃ name, JumpAt jumpyProgram name index ∧
        ∀ place, ¬ LabelAt jumpyProgram name place} = 1 := by
  have assembled : assembleWithStats jumpyText = .ok (jumpyProgram, .ofProgram jumpyProgram 2) :=
    assembleWithStats_ok_iff.mpr (by decide +kernel)
  obtain ⟨described, _⟩ := statistics_describe_program assembled
  have frequent : (Stats.ofProgram jumpyProgram 2).frequent = ["JUMP", "LABEL"] :=
    (List.mergeSort_of_pairwise (by decide +kernel)).trans (by decide +kernel)
  exact ⟨_, assembled, rfl, rfl, frequent, described, described.labels ▸ rfl, described.bad ▸ rfl⟩

end Framecode.Source
