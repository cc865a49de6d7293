import Framecode.Proofs.Engine.Assembled
import Framecode.Proofs.Engine.Forward

/-! What the statistics of a source text tell about the machine. Labels are looked up twice
and in two ways: the statistics remember the first definition of a name and count indexes
from zero, the machine refuses a second definition and counts positions from one. Where a
program loads at all the two are the same up to that one, so what is counted of a jump is
what a run makes of it. -/
namespace Framecode.Engine

open Source

/-! ## Labels that are given twice -/

/-- The first LABEL, in the order of the list, that gives a name a second time. -/
def RepeatsFirst (instructions : List Instruction) (instr : Instruction) : Prop :=
  ∃ before following, instructions = before ++ instr :: following ∧ instr.opcode = .label ∧
    (Stats.labelNames before).Nodup ∧ Stats.labelOf instr ∈ Stats.labelNames before

namespace LabelTable

/-- A LABEL with its one argument is added under the name that the statistics have for it. -/
theorem add_label {table : LabelTable} {position : Nat} {instr : Instruction}
    (labelled : instr.opcode = .label) (counted : instr.args.length = instr.opcode.arity) :
    table.add position instr =
      if (table.position? (Stats.labelOf instr)).isSome then
        .error ⟨instr.order, .duplicateLabel (Stats.labelOf instr)⟩
      else .ok ⟨(Stats.labelOf instr, position) :: table.entries⟩ := by
  obtain ⟨order, opcode, args⟩ := instr
  cases labelled
  obtain ⟨arg, rfl⟩ := List.length_eq_one_iff.mp counted
  rfl

private theorem add_other {table : LabelTable} {position : Nat} {instr : Instruction}
    (other : instr.opcode ≠ .label) : table.add position instr = .ok table := by
  rw [add, if_neg other]

/-- A name is new to a table with one more label exactly when it is new to the table and
not that label. -/
theorem position_cons_none {entries : List (String × Nat)} {label name : String} {position : Nat} :
    position? ⟨(label, position) :: entries⟩ name = none ↔
      position? ⟨entries⟩ name = none ∧ name ≠ label := by
  rw [position?, position?, List.lookup_cons]
  by_cases same : name = label
  · simp [same]
  · simp [same, beq_eq_false_iff_ne.mpr same]

/-- A table takes the labels of some instructions only if all their names are new to it
and no two are the same, and it then has that many more. -/
theorem names_of_addAll {table result : LabelTable} {start : Nat} {instructions : List Instruction}
    (counted : ∀ instr ∈ instructions, instr.args.length = instr.opcode.arity)
    (added : table.addAll start instructions = .ok result) :
    (Stats.labelNames instructions).Nodup ∧
      (∀ name ∈ Stats.labelNames instructions, table.position? name = none) ∧
      result.size = table.size + (Stats.labelNames instructions).length := by
  induction instructions generalizing table start with
  | nil =>
    cases added
    simp [Stats.labelNames]
  | cons instr rest ih =>
    have countedRest := fun other member => counted other (List.mem_cons_of_mem instr member)
    rw [addAll] at added
    by_cases labelled : instr.opcode = .label
    · rw [add_label labelled (counted instr List.mem_cons_self)] at added
      by_cases known : (table.position? (Stats.labelOf instr)).isSome = true
      · rw [if_pos known] at added
        cases added
      · rw [if_neg known] at added
        obtain ⟨distinct, unknown, size⟩ := ih countedRest added
        simp only [position_cons_none] at unknown
        rw [Stats.labelNames_label labelled, List.nodup_cons, List.forall_mem_cons]
        refine ⟨⟨fun member => (unknown _ member).2 rfl, distinct⟩,
          ⟨Option.not_isSome_iff_eq_none.mp known, fun name member => (unknown name member).1⟩, ?_⟩
        rw [size, LabelTable.size, LabelTable.size, List.length_cons, List.length_cons]
        omega
    · rw [add_other labelled] at added
      rw [Stats.labelNames_other labelled]
      exact ih countedRest added

/-- A table refuses some instructions at the first LABEL whose name is not new: the table
has it, or a LABEL before gives it. -/
theorem repeated_of_addAll {table : LabelTable} {start : Nat} {instructions : List Instruction}
    {fault : Fault} (counted : ∀ instr ∈ instructions, instr.args.length = instr.opcode.arity)
    (refused : table.addAll start instructions = .error fault) :
    ∃ before instr following, instructions = before ++ instr :: following ∧
      instr.opcode = .label ∧ fault = ⟨instr.order, .duplicateLabel (Stats.labelOf instr)⟩ ∧
      (Stats.labelNames before).Nodup ∧
      (∀ name ∈ Stats.labelNames before, table.position? name = none) ∧
      (table.position? (Stats.labelOf instr) = none →
        Stats.labelOf instr ∈ Stats.labelNames before) := by
  induction instructions generalizing table start with
  | nil => cases refused
  | cons instr rest ih =>
    have countedRest := fun other member => counted other (List.mem_cons_of_mem instr member)
    rw [addAll] at refused
    by_cases labelled : instr.opcode = .label
    · rw [add_label labelled (counted instr List.mem_cons_self)] at refused
      by_cases known : (table.position? (Stats.labelOf instr)).isSome = true
      · rw [if_pos known] at refused
        cases refused
        refine ⟨[], instr, rest, rfl, labelled, rfl, List.nodup_nil, by simp [Stats.labelNames], ?_⟩
        intro unknown
        rw [unknown] at known
        cases known
      · rw [if_neg known] at refused
        obtain ⟨before, other, following, rfl, otherLabelled, same, distinct, unknown, repeated⟩ :=
          ih countedRest refused
        simp only [position_cons_none] at unknown repeated
        refine ⟨instr :: before, other, following, rfl, otherLabelled, same, ?_, ?_, ?_⟩
        · rw [Stats.labelNames_label labelled, List.nodup_cons]
          exact ⟨fun member => (unknown _ member).2 rfl, distinct⟩
        · rw [Stats.labelNames_label labelled, List.forall_mem_cons]
          exact ⟨Option.not_isSome_iff_eq_none.mp known, fun name member => (unknown name member).1⟩
        · intro absent
          rw [Stats.labelNames_label labelled, List.mem_cons]
          by_cases named : Stats.labelOf other = Stats.labelOf instr
          · exact .inl named
          · exact .inr (repeated ⟨absent, named⟩)
    · rw [add_other labelled] at refused
      obtain ⟨before, other, following, rfl, found⟩ := ih countedRest refused
      refine ⟨instr :: before, other, following, rfl, ?_⟩
      rw [Stats.labelNames_other labelled]
      exact found

end LabelTable

section

variable {instructions before following : List Instruction} {instr : Instruction}

private theorem labelNames_append (left right : List Instruction) :
    Stats.labelNames (left ++ right) = Stats.labelNames left ++ Stats.labelNames right := by
  rw [Stats.labelNames, List.filter_append, List.map_append, Stats.labelNames, Stats.labelNames]

/-- Where a LABEL gives a name again, the names are not distinct. -/
theorem not_nodup_of_repeated (labelled : instr.opcode = .label)
    (given : Stats.labelOf instr ∈ Stats.labelNames before) :
    ¬ (Stats.labelNames (before ++ instr :: following)).Nodup := by
  rw [labelNames_append, Stats.labelNames_label labelled, List.nodup_append]
  rintro ⟨_, _, apart⟩
  exact apart _ given _ List.mem_cons_self rfl

variable (formed : ∀ instr ∈ instructions, instr.isWellFormed = true)
include formed

private theorem counted_of_formed :
    ∀ instr ∈ instructions, instr.args.length = instr.opcode.arity :=
  fun instr member => counted_of_well_formed (formed instr member)

theorem repeatsFirst_of_refused {fault : Fault}
    (refused : LabelTable.ofInstructions instructions = .error fault) :
    ∃ instr, RepeatsFirst instructions instr ∧
      fault = ⟨instr.order, .duplicateLabel (Stats.labelOf instr)⟩ := by
  obtain ⟨before, instr, following, whole, labelled, same, distinct, _, again⟩ :=
    LabelTable.repeated_of_addAll (counted_of_formed formed) refused
  exact ⟨instr, ⟨before, following, whole, labelled, distinct, again rfl⟩, same⟩

/-- Well formed instructions have a table of labels exactly when no name is given twice. -/
theorem labels_ok_iff : (∃ table, LabelTable.ofInstructions instructions = .ok table) ↔
    (Stats.labelNames instructions).Nodup := by
  constructor
  · rintro ⟨table, built⟩
    exact (LabelTable.names_of_addAll (counted_of_formed formed) built).1
  · intro distinct
    cases built : LabelTable.ofInstructions instructions with
    | ok table => exact ⟨table, rfl⟩
    | error fault =>
      obtain ⟨instr, ⟨before, following, rfl, labelled, _, given⟩, _⟩ :=
        repeatsFirst_of_refused formed built
      exact absurd distinct (not_nodup_of_repeated labelled given)

end

variable {program : Program} {code : Code} {machine : Machine}

/-- A program that a text could spell loads exactly when no name is given twice. Otherwise
it is refused at the first LABEL that gives one again. -/
theorem load_listable_iff (listable : Listable program) :
    ((∃ code, Code.load program = .ok code) ↔ (Stats.labelNames program.instructions).Nodup) ∧
    (¬ (Stats.labelNames program.instructions).Nodup →
      ∃ instr, RepeatsFirst program.instructions instr ∧
        Code.load program = .error ⟨instr.order, .duplicateLabel (Stats.labelOf instr)⟩) := by
  rw [load_eq_of_listable listable, ← labels_ok_iff listable.formed]
  cases built : LabelTable.ofInstructions program.instructions with
  | ok labels =>
    exact ⟨⟨fun _ => ⟨labels, rfl⟩, fun _ => ⟨_, rfl⟩⟩, fun none => absurd ⟨labels, rfl⟩ none⟩
  | error fault =>
    obtain ⟨instr, repeats, rfl⟩ := repeatsFirst_of_refused listable.formed built
    refine ⟨⟨?_, ?_⟩, fun _ => ⟨instr, repeats, rfl⟩⟩
    · rintro ⟨code, loaded⟩
      cases loaded
    · rintro ⟨labels, other⟩
      cases other

/-! ## Two ways to look up a label -/

/-- Where a loaded program is listed in the order of execution, its machine has a label
one behind the index at which the statistics have it. -/
theorem position_eq_definition (loaded : Code.load program = .ok code)
    (listed : program.sorted = program.instructions) (comments : Nat) (name : String) :
    code.labels.position? name =
      ((Stats.ofProgram program comments).definitions.lookup name).map (· + 1) := by
  obtain ⟨sorted, _, built⟩ := load_ok loaded
  refine Option.ext fun position => ?_
  rw [LabelTable.position_ofInstructions built, Stats.definition_ofProgram,
    Option.map_eq_some_iff, sorted]
  constructor
  · rintro ⟨index, instr, held, rfl, defines⟩
    exact ⟨index, (first_label_iff loaded listed).mpr
      ⟨instr, ⟨Nat.le_add_left 1 index, held⟩, defines⟩, rfl⟩
  · rintro ⟨index, found, rfl⟩
    obtain ⟨instr, stands, defines⟩ := (first_label_iff loaded listed).mp found
    exact ⟨index, instr, stands.2, rfl, defines⟩

/-- The machine has as many labels as the statistics count. -/
theorem size_eq_labels (loaded : Code.load program = .ok code)
    (listed : program.sorted = program.instructions) (comments : Nat) :
    code.labels.size = (Stats.ofProgram program comments).labels := by
  obtain ⟨sorted, _, built⟩ := load_ok loaded
  obtain ⟨distinct, _, size⟩ := LabelTable.names_of_addAll (counted_of_load loaded) built
  rw [sorted, listed] at distinct size
  rw [(Stats.labels_eq_length_iff program comments).mpr distinct, size]
  exact Nat.zero_add _

/-! ## Jumps that are taken -/

/-- A step that goes to a label: a jump, a branch whose condition holds, or a call. -/
def Taken (machine : Machine) (state next : State) : Prop :=
  ∃ instr target, machine.code.fetch? state.next = some instr ∧
    (machine.effect state instr = .ok (.jump target) ∨
      machine.effect state instr = .ok (.call target)) ∧
    machine.step state = .running next

/-- A jump that is taken goes to the position of the label that it names. -/
theorem target_of_taken (loaded : Code.load program = .ok machine.code) {state next : State}
    (taken : Taken machine state next) :
    ∃ instr, StandsAt program state.next instr ∧ instr.opcode ∈ jumpOpcodes ∧
      machine.code.labels.position? (Stats.labelOf instr) = some next.next := by
  obtain ⟨instr, target, fetched, jumps, ran⟩ := taken
  have formed := (load_ok loaded).2.1 instr (fetch_member fetched)
  have known : ∃ name, instr.opcode ∈ jumpOpcodes ∧ instr.args.head? = some ⟨.label, name⟩ ∧
      machine.code.labels.position? name = some target := by
    rcases jumps with planned | planned
    · obtain ⟨operation, found, plan⟩ := effect_ok_iff.mp planned
      have named := (fitting_of_well_formed formed found).label
      cases plan with
      | jump known | taken known => exact ⟨_, (named _ rfl).1, (named _ rfl).2, known⟩
    · obtain ⟨operation, found, plan⟩ := effect_ok_iff.mp planned
      have named := (fitting_of_well_formed formed found).label
      cases plan with
      | call known => exact ⟨_, (named _ rfl).1, (named _ rfl).2, known⟩
  have arrived : next.next = target := by
    unfold Machine.step at ran
    rcases jumps with planned | planned
    all_goals
      rw [fetched] at ran
      simp only [planned] at ran
      cases ran
      rfl
  obtain ⟨name, opcode, head, position⟩ := known
  refine ⟨instr, stands_at_of_fetch loaded fetched, opcode, ?_⟩
  rw [Stats.labelOf, head, arrived]
  exact position

section

variable (loaded : Code.load program = .ok machine.code)
  (listed : program.sorted = program.instructions) {comments : Nat}
include loaded listed

/-- A jump that is counted for some condition and is taken goes to one behind the index
at which its label is defined, and that index meets the condition. -/
theorem definition_of_taken {state next : State} {holds : Option Nat → Nat → Bool}
    (taken : Taken machine state next)
    (member : state.next - 1 ∈ (Stats.ofProgram program comments).counted holds) :
    ∃ first, next.next = first + 1 ∧ holds (some first) (state.next - 1) = true := by
  obtain ⟨instr, stands, _, position⟩ := target_of_taken loaded taken
  obtain ⟨other, held, _, condition⟩ := Stats.mem_counted_iff.mp member
  have same := stands.2
  rw [listed, held] at same
  cases same
  rw [position_eq_definition loaded listed comments, Option.map_eq_some_iff] at position
  obtain ⟨first, defined, arrived⟩ := position
  rw [defined] at condition
  exact ⟨first, arrived.symm, condition⟩

/-- A run that ends for an undefined label ends at a bad jump. -/
theorem bad_of_undefined {input : Input} {fuel : Nat} {order : UInt32} {label : String}
    (failed : (machine.run fuel (.initial input)).outcome =
      some (.failed ⟨order, .undefinedLabel label⟩)) :
    ∃ index ∈ (Stats.ofProgram program comments).bad, ∃ instr,
      program.instructions[index]? = some instr ∧ instr.order = order ∧
        Stats.labelOf instr = label := by
  obtain ⟨before, instr, _, fetched, refused, same⟩ := fault_at_last_fetched failed
  have formed := (load_ok loaded).2.1 instr (fetch_member fetched)
  obtain ⟨jumps, head, unknown⟩ := justified_of_effect formed refused
  have named : Stats.labelOf instr = label := by rw [Stats.labelOf, head]; rfl
  have held := (stands_at_of_fetch loaded fetched).2
  rw [listed] at held
  refine ⟨before.next - 1, Stats.mem_counted_iff.mpr ⟨instr, held, jumps, ?_⟩, instr, held,
    same.symm, named⟩
  rw [position_eq_definition loaded listed comments, Option.map_eq_none_iff] at unknown
  rw [named, unknown]
  rfl

end

/-! ## What the counts say -/

/-- The statistics of a text with fewer than 2^32 instruction lines predict the machine. The
program loads exactly when the labels counted are as many as the LABELs, and else is
refused for the first name that is given a second time; a machine that it loads into has
as many labels as are counted. Whatever the input and the sink, a run ends for an undefined
label only at one of the bad jumps, and so never where there is none; and from whatever
state, a forward jump that is taken goes to a later position than its own, a back jump to
an earlier one. -/
theorem statistics_predict_machine {text : String} {stats : Stats}
    (few : (spelledLines text).tail.length < UInt32.size)
    (assembled : assembleWithStats text = .ok (program, stats)) :
    ((∃ code, Code.load program = .ok code) ↔
      stats.labels = program.instructions.countP (·.opcode = .label)) ∧
    (stats.labels ≠ program.instructions.countP (·.opcode = .label) →
      ∃ instr, RepeatsFirst program.instructions instr ∧
        Code.load program = .error ⟨instr.order, .duplicateLabel (Stats.labelOf instr)⟩) ∧
    (stats.forward.length = stats.fwJumps ∧ stats.back.length = stats.backJumps ∧
      stats.bad.length = stats.badJumps) ∧
    ∀ machine : Machine, Code.load program = .ok machine.code →
      machine.code.labels.size = stats.labels ∧
      (∀ input fuel order label,
        (machine.run fuel (.initial input)).outcome = some (.failed ⟨order, .undefinedLabel label⟩) →
        ∃ index ∈ stats.bad, ∃ instr, program.instructions[index]? = some instr ∧
          instr.order = order ∧ Stats.labelOf instr = label) ∧
      (stats.badJumps = 0 → ∀ input fuel order label,
        (machine.run fuel (.initial input)).outcome ≠
          some (.failed ⟨order, .undefinedLabel label⟩)) ∧
      ∀ state next, Taken machine state next →
        (state.next - 1 ∈ stats.forward → state.next < next.next) ∧
        (state.next - 1 ∈ stats.back → next.next < state.next) := by
  obtain ⟨read, rfl⟩ := assembleWithStats_ok_iff.mp assembled
  have listable := listable_of_spelled ((assemble_ok_iff few).mp read)
  have listed := sorted_of_numbered listable.numbered
  obtain ⟨loads, refused⟩ := load_listable_iff listable
  rw [← Stats.labelNames_length, ne_eq, Stats.labels_eq_length_iff]
  refine ⟨loads, refused, ⟨Stats.counted_length _ _, Stats.counted_length _ _,
    Stats.counted_length _ _⟩, fun machine loaded => ⟨size_eq_labels loaded listed _,
      fun _ _ _ _ failed => bad_of_undefined loaded listed failed, ?_, ?_⟩⟩
  · intro none input fuel order label failed
    obtain ⟨index, member, _⟩ := bad_of_undefined loaded listed failed
    rw [Stats.badJumps, ← Stats.counted_length, List.length_eq_zero_iff] at none
    rw [Stats.bad, none] at member
    exact absurd member List.not_mem_nil
  · intro state next taken
    constructor
    · intro member
      obtain ⟨first, arrived, later⟩ := definition_of_taken loaded listed taken member
      simp only [Option.any_some, decide_eq_true_eq] at later
      omega
    · intro member
      obtain ⟨first, arrived, earlier⟩ := definition_of_taken loaded listed taken member
      simp only [Option.any_some, decide_eq_true_eq] at earlier
      omega

/-- A source text that calls a subroutine further down and then jumps to a label that it
does not define. -/
def wanderingText : String := ".IPPcode24\nCALL work\nJUMP nowhere\nLABEL work\nRETURN"

/-- The program that it spells. -/
def wandering : Program :=
  ⟨[⟨1, .call, [⟨.label, "work"⟩]⟩, ⟨2, .jump, [⟨.label, "nowhere"⟩]⟩,
    ⟨3, .label, [⟨.label, "work"⟩]⟩, ⟨4, .ret, []⟩]⟩

/-- The same program once it is loaded. -/
def wanderingCode : Code := ⟨wandering.instructions, ⟨[("work", 3)]⟩⟩

theorem wandering_is_predicted :
    let machine : Machine := ⟨wanderingCode, .accepting⟩
    let stats := Stats.ofProgram wandering 0
    (spelledLines wanderingText).tail.length < UInt32.size ∧
    assembleWithStats wanderingText = .ok (wandering, stats) ∧
    Code.load wandering = .ok machine.code ∧ stats.labels = 1 ∧
    Taken machine {} { calls := ⟨[2]⟩, next := 3 } ∧ 0 ∈ stats.forward ∧
    (machine.run 9 (.initial {})).outcome = some (.failed ⟨2, .undefinedLabel "nowhere"⟩) ∧
    ∃ index ∈ stats.bad, ∃ instr, wandering.instructions[index]? = some instr ∧
      instr.order = 2 := by
  intro machine stats
  have few : (spelledLines wanderingText).tail.length < UInt32.size := by decide +kernel
  have assembled : assembleWithStats wanderingText = .ok (wandering, stats) := by decide +kernel
  have loaded : Code.load wandering = .ok machine.code := load_of_listed rfl rfl rfl
  have failed : (machine.run 9 (.initial {})).outcome =
      some (.failed ⟨2, .undefinedLabel "nowhere"⟩) := rfl
  obtain ⟨loads, _, _, each⟩ := statistics_predict_machine few assembled
  obtain ⟨_, undefined, _⟩ := each machine loaded
  obtain ⟨index, member, instr, held, order, _⟩ := undefined {} 9 2 "nowhere" failed
  exact ⟨few, assembled, loaded, loads.mp ⟨_, loaded⟩, ⟨_, 3, rfl, .inr rfl, rfl⟩,
    List.mem_singleton.mpr rfl, failed, index, member, instr, held, order⟩

end Framecode.Engine
