import Framecode.Proofs.Engine.Causes
import Framecode.Source.Assemble

/-! What the statistics of a program say about its jumps. They are gathered by one pass
over the instructions; a label is defined where the list of instructions has it first, and
a jump is told apart from others by where that is. -/
namespace Framecode.Source

/-- The statistics of a text are those of the program that it spells. -/
theorem assembleWithStats_ok_iff {text : String} {program : Program} {stats : Stats} :
    assembleWithStats text = .ok (program, stats) ↔ assemble text = .ok program ∧
      stats = Stats.ofProgram program (commentedLines (Text.lines text.toList)) := by
  rw [assembleWithStats, assemble]
  cases assembleLines (Text.lines text.toList) with
  | error error => simp [Except.map]
  | ok found =>
    simp only [Except.map, Except.ok.injEq, Prod.mk.injEq]
    refine and_congr_right fun same => ?_
    rw [same]
    exact eq_comm

/-- A text is refused for its statistics as it is refused for its program. -/
theorem assembleWithStats_error_iff {text : String} {error : Error} :
    assembleWithStats text = .error error ↔ assemble text = .error error := by
  rw [assembleWithStats, assemble]
  cases assembleLines (Text.lines text.toList) <;> simp [Except.map]

namespace Stats

open Engine

/-- Whether an instruction is the LABEL of a name. -/
def labels? (name : String) (instr : Instruction) : Bool :=
  instr.opcode = .label && labelOf instr = name

/-- The name of the label that an instruction goes to, and the index of the instruction. -/
def target? (placed : Instruction × Nat) : Option (String × Nat) :=
  if placed.1.opcode ∈ jumpOpcodes then some (labelOf placed.1, placed.2) else none

/-- What one more instruction adds to the statistics: a line, perhaps the definition of a
label that had none, and perhaps the target of a jump. -/
theorem record_adds (stats : Stats) (instr : Instruction) :
    (stats.record instr).loc = stats.loc + 1 ∧
    (∀ name, (stats.record instr).definitions.lookup name =
      (stats.definitions.lookup name).or (if labels? name instr then some stats.loc else none)) ∧
    (stats.record instr).targets = stats.targets ++ (target? (instr, stats.loc)).toList := by
  obtain ⟨order, opcode, args⟩ := instr
  cases opcode with
  | label =>
    simp only [record, labels?, target?, jumpOpcodes]
    cases known : stats.definitions.lookup (labelOf ⟨order, .label, args⟩) with
    | none =>
      refine ⟨rfl, fun name => ?_, by simp⟩
      by_cases same : labelOf ⟨order, .label, args⟩ = name
      · subst same
        simp [List.lookup_append, known]
      · simp [List.lookup_append, List.lookup_cons, beq_eq_false_iff_ne.mpr (Ne.symm same), same]
    | some first =>
      refine ⟨rfl, fun name => ?_, by simp⟩
      by_cases same : labelOf ⟨order, .label, args⟩ = name
      · simp [← same, known]
      · simp [same]
  | _ => exact ⟨rfl, fun name => by simp [record, labels?], by simp [record, target?, jumpOpcodes]⟩

/-- What a pass over some instructions adds to the statistics: a label that had no
definition gets the first one among them, and the targets of the jumps follow one
another. -/
theorem foldl_record (instructions : List Instruction) (stats : Stats) :
    (∀ name, (instructions.foldl record stats).definitions.lookup name =
      (stats.definitions.lookup name).or
        ((instructions.findIdx? (labels? name)).map (stats.loc + ·))) ∧
    (instructions.foldl record stats).targets =
      stats.targets ++ (instructions.zipIdx stats.loc).filterMap target? := by
  induction instructions generalizing stats with
  | nil => simp
  | cons instr rest ih =>
    obtain ⟨loc, definitions, targets⟩ := record_adds stats instr
    obtain ⟨later, others⟩ := ih (stats.record instr)
    rw [List.foldl_cons, others, loc, targets]
    constructor
    · intro name
      rw [later, definitions, loc, Option.or_assoc, List.findIdx?_cons]
      cases labels? name instr with
      | true => simp
      | false => simp [Function.comp_def, Nat.add_assoc, Nat.add_comm 1]
    · rw [List.zipIdx_cons, List.filterMap_cons, List.append_assoc]
      cases target? (instr, stats.loc) <;> rfl

/-- A label is defined where the program has it first. -/
theorem definition_ofProgram (program : Program) (comments : Nat) (name : String) :
    (ofProgram program comments).definitions.lookup name =
      program.instructions.findIdx? (labels? name) := by
  rw [ofProgram, (foldl_record _ _).1]
  simp

/-- The jumps that are counted are those of the program, each with its label and index. -/
theorem targets_ofProgram (program : Program) (comments : Nat) :
    (ofProgram program comments).targets = program.instructions.zipIdx.filterMap target? := by
  rw [ofProgram, (foldl_record _ _).2]
  rfl

theorem mem_targets_iff {program : Program} {comments : Nat} {name : String} {index : Nat} :
    (name, index) ∈ (ofProgram program comments).targets ↔
      ∃ instr, program.instructions[index]? = some instr ∧ instr.opcode ∈ jumpOpcodes ∧
        labelOf instr = name := by
  rw [targets_ofProgram, List.mem_filterMap]
  constructor
  · rintro ⟨⟨instr, place⟩, member, found⟩
    have held := List.mem_zipIdx_iff_getElem?.mp member
    rw [target?, Option.ite_none_right_eq_some] at found
    obtain ⟨jumps, same⟩ := found
    cases same
    exact ⟨instr, held, jumps, rfl⟩
  · rintro ⟨instr, held, jumps, rfl⟩
    exact ⟨(instr, index), List.mem_zipIdx_iff_getElem?.mpr held, if_pos jumps⟩

/-- No jump goes back exactly when the label of every jump that is defined at all is
defined for the first time behind it. -/
theorem backJumps_zero_iff {program : Program} {comments : Nat} :
    (ofProgram program comments).backJumps = 0 ↔
      ∀ index instr, program.instructions[index]? = some instr → instr.opcode ∈ jumpOpcodes →
        ∀ first, program.instructions.findIdx? (labels? (labelOf instr)) = some first →
          index ≤ first := by
  simp only [backJumps, countTargets, List.countP_eq_zero, Prod.forall, mem_targets_iff,
    definition_ofProgram]
  constructor
  · intro none index instr held jumps first found
    have kept := none _ index ⟨instr, held, jumps, rfl⟩
    simp only [found, Option.any_some, decide_eq_true_eq] at kept
    omega
  · rintro forward name index ⟨instr, held, jumps, rfl⟩
    cases found : program.instructions.findIdx? (labels? (labelOf instr)) with
    | none => simp
    | some first =>
      have behind := forward index instr held jumps first found
      simp only [Option.any_some, decide_eq_true_eq]
      omega

/-! ## Labels -/

/-- The names that the LABELs among some instructions give, in order and as often as they
are given. -/
def labelNames (instructions : List Instruction) : List String :=
  (instructions.filter (·.opcode = .label)).map labelOf

theorem labelNames_label {instr : Instruction} (labelled : instr.opcode = .label)
    (rest : List Instruction) : labelNames (instr :: rest) = labelOf instr :: labelNames rest := by
  rw [labelNames, List.filter_cons_of_pos (by simpa using labelled), List.map_cons, labelNames]

theorem labelNames_other {instr : Instruction} (other : instr.opcode ≠ .label)
    (rest : List Instruction) : labelNames (instr :: rest) = labelNames rest := by
  rw [labelNames, List.filter_cons_of_neg (by simpa using other), labelNames]

theorem labelNames_length (instructions : List Instruction) :
    (labelNames instructions).length = instructions.countP (·.opcode = .label) := by
  rw [labelNames, List.length_map, List.countP_eq_length_filter]

/-- One more instruction adds to the number of labels exactly when it is a LABEL whose name
has no definition yet. -/
theorem labels_record (stats : Stats) (instr : Instruction) :
    (stats.record instr).labels = stats.labels +
      if instr.opcode = .label ∧ stats.definitions.lookup (labelOf instr) = none then 1 else 0 := by
  by_cases labelled : instr.opcode = .label
  · simp only [record, labelled, labels]
    cases known : stats.definitions.lookup (labelOf instr) with
    | none => simp
    | some first => simp
  · rw [if_neg fun both => labelled both.1, Nat.add_zero]
    simp only [record]
    split
    · contradiction
    all_goals rfl

/-- A pass over some instructions counts no more labels than there are LABELs among them,
and as many only where no name is given twice and none had a definition before. -/
theorem labels_foldl (instructions : List Instruction) (stats : Stats) :
    (instructions.foldl record stats).labels ≤ stats.labels + (labelNames instructions).length ∧
    ((instructions.foldl record stats).labels = stats.labels + (labelNames instructions).length ↔
      (labelNames instructions).Nodup ∧
        ∀ name ∈ labelNames instructions, stats.definitions.lookup name = none) := by
  induction instructions generalizing stats with
  | nil => simp [labelNames]
  | cons instr rest ih =>
    obtain ⟨atMost, exactly⟩ := ih (stats.record instr)
    obtain ⟨_, definitions, _⟩ := record_adds stats instr
    have counted := labels_record stats instr
    rw [List.foldl_cons]
    by_cases labelled : instr.opcode = .label
    · rw [labelNames_label labelled, List.length_cons, List.nodup_cons, List.forall_mem_cons]
      have looked : ∀ name, (stats.record instr).definitions.lookup name = none ↔
          stats.definitions.lookup name = none ∧ labelOf instr ≠ name := by
        intro name
        rw [definitions]
        simp [labels?, labelled]
      simp only [looked] at exactly
      by_cases fresh : stats.definitions.lookup (labelOf instr) = none
      · rw [if_pos ⟨labelled, fresh⟩] at counted
        refine ⟨by omega, ?_⟩
        rw [show stats.labels + ((labelNames rest).length + 1) =
          (stats.record instr).labels + (labelNames rest).length by omega, exactly]
        constructor
        · rintro ⟨distinct, unknown⟩
          exact ⟨⟨fun member => (unknown _ member).2 rfl, distinct⟩, fresh,
            fun name member => (unknown name member).1⟩
        · rintro ⟨⟨absent, distinct⟩, _, unknown⟩
          refine ⟨distinct, fun name member => ⟨unknown name member, ?_⟩⟩
          rintro rfl
          exact absent member
      · rw [if_neg fun both => fresh both.2] at counted
        refine ⟨by omega, ?_⟩
        constructor
        · intro same
          omega
        · rintro ⟨_, unknown, _⟩
          exact absurd unknown fresh
    · rw [labelNames_other labelled]
      have looked : ∀ name, (stats.record instr).definitions.lookup name =
          stats.definitions.lookup name := by
        intro name
        rw [definitions]
        simp [labels?, labelled]
      rw [if_neg fun both => labelled both.1] at counted
      simp only [looked, counted, Nat.add_zero] at atMost exactly
      exact ⟨atMost, exactly⟩

/-- The labels of a program are as many as its LABELs exactly when no name is given twice. -/
theorem labels_eq_length_iff (program : Program) (comments : Nat) :
    (ofProgram program comments).labels = (labelNames program.instructions).length ↔
      (labelNames program.instructions).Nodup := by
  have counted := (labels_foldl program.instructions { comments }).2
  simpa [labels, ofProgram] using counted

/-! ## Counted jumps -/

/-- The indexes of the jumps and calls that a count goes over. -/
def counted (stats : Stats) (holds : Option Nat → Nat → Bool) : List Nat :=
  (stats.targets.filter fun target =>
    holds (stats.definitions.lookup target.1) target.2).map Prod.snd

/-- The indexes of the jumps to a label further down. -/
def forward (stats : Stats) : List Nat :=
  stats.counted fun definition index => definition.any (index < ·)

/-- The indexes of the jumps to a label further up. -/
def back (stats : Stats) : List Nat :=
  stats.counted fun definition index => definition.any (· < index)

/-- The indexes of the jumps to a label that is not defined. -/
def bad (stats : Stats) : List Nat := stats.counted fun definition _ => definition.isNone

theorem counted_length (stats : Stats) (holds : Option Nat → Nat → Bool) :
    (stats.counted holds).length = stats.countTargets holds := by
  rw [counted, List.length_map, countTargets, List.countP_eq_length_filter]

/-- What is counted of a program are its jumps and calls for whose labels the condition
holds. -/
theorem mem_counted_iff {program : Program} {comments index : Nat}
    {holds : Option Nat → Nat → Bool} :
    index ∈ (ofProgram program comments).counted holds ↔
      ∃ instr, program.instructions[index]? = some instr ∧ instr.opcode ∈ jumpOpcodes ∧
        holds ((ofProgram program comments).definitions.lookup (labelOf instr)) index = true := by
  simp only [counted, List.mem_map, List.mem_filter, Prod.exists, mem_targets_iff]
  constructor
  · rintro ⟨_, _, ⟨⟨instr, held, jumps, rfl⟩, condition⟩, rfl⟩
    exact ⟨instr, held, jumps, condition⟩
  · rintro ⟨instr, held, jumps, condition⟩
    exact ⟨labelOf instr, index, ⟨⟨instr, held, jumps, rfl⟩, condition⟩, rfl⟩

end Stats

end Framecode.Source
