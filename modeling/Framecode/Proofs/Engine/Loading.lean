import Framecode.Engine.Code

/-! What a loaded program is: its instructions are those of the program in the order
of execution, all of them well formed, and its label table is exact. The table is
compared with the instructions themselves, position by position. -/
namespace Framecode.Engine

/-- An instruction defines a label when it is a LABEL with that name. What stands
after the name does not matter here; loading refuses it. -/
def Defines (instr : Instruction) (name : String) : Prop :=
  instr.opcode = .label ∧ instr.args.head?.map Argument.text = some name

namespace LabelTable

/-- Adding an instruction adds the label it defines and keeps all others. -/
theorem position_add {table next : LabelTable} {position : Nat} {instr : Instruction}
    (added : table.add position instr = .ok next) (name : String) (found : Nat) :
    next.position? name = some found ↔
      table.position? name = some found ∨ (Defines instr name ∧ found = position) := by
  unfold add at added
  split at added
  · rename_i labelled
    split at added
    · cases added
    · rename_i arg rest args
      split at added
      · cases added
      · rename_i absent
        cases added
        rw [Option.not_isSome_iff_eq_none] at absent
        simp only [position?, List.lookup_cons, Defines, labelled, args, List.head?_cons,
          Option.map_some, Option.some.injEq, true_and]
        by_cases same : name = arg.text
        · subst same
          rw [position?] at absent
          simp [absent, eq_comm]
        · simp [Ne.symm same, beq_eq_false_iff_ne.mpr same]
  · rename_i other
    cases added
    simp [Defines, other]

/-- Adding instructions adds exactly the labels they define, each at its place. -/
theorem position_addAll {table result : LabelTable} {start : Nat} {instructions : List Instruction}
    (added : table.addAll start instructions = .ok result) (name : String) (found : Nat) :
    result.position? name = some found ↔ table.position? name = some found ∨
      ∃ index instr, instructions[index]? = some instr ∧ found = start + index ∧
        Defines instr name := by
  induction instructions generalizing table start with
  | nil =>
    cases added
    simp
  | cons instr rest ih =>
    rw [addAll] at added
    split at added
    · cases added
    · rename_i next first
      rw [ih added, position_add first, or_assoc]
      refine or_congr_right ⟨?_, ?_⟩
      · rintro (⟨defined, rfl⟩ | ⟨index, other, at_, rfl, defined⟩)
        · exact ⟨0, instr, rfl, rfl, defined⟩
        · exact ⟨index + 1, other, at_, by omega, defined⟩
      · rintro ⟨index, other, at_, rfl, defined⟩
        cases index with
        | zero =>
          cases at_
          exact Or.inl ⟨defined, rfl⟩
        | succ index => exact Or.inr ⟨index, other, at_, by omega, defined⟩

/-- The table of a list of instructions has a label at a position exactly when the
instruction there, counted from one, defines it. -/
theorem position_ofInstructions {table : LabelTable} {instructions : List Instruction}
    (built : ofInstructions instructions = .ok table) (name : String) (found : Nat) :
    table.position? name = some found ↔
      ∃ index instr, instructions[index]? = some instr ∧ found = index + 1 ∧ Defines instr name := by
  rw [position_addAll built]
  simp [position?, Nat.add_comm]

end LabelTable

/-- The check of a loader is passed exactly by instructions that are well formed and whose
orders increase from the bound given. -/
theorem check_ok_iff {last : UInt32} {instructions : List Instruction} :
    Code.check last instructions = .ok () ↔
      (last :: instructions.map (·.order)).Pairwise (· < ·) ∧
        ∀ instr ∈ instructions, instr.isWellFormed = true := by
  induction instructions generalizing last with
  | nil => simp [Code.check]
  | cons first rest ih =>
    rw [Code.check]
    by_cases below : first.order ≤ last
    · rw [if_pos below]
      simp only [reduceCtorEq, false_iff]
      intro passed
      have above := List.rel_of_pairwise_cons passed.1 List.mem_cons_self
      exact UInt32.not_lt.mpr below above
    · have above : last < first.order := UInt32.not_le.mp below
      rw [if_neg below]
      by_cases formed : first.isWellFormed = true
      · rw [if_pos formed, ih]
        simp only [List.map_cons, List.pairwise_cons, List.mem_cons, List.mem_map, forall_eq_or_imp,
          formed, true_and, above]
        refine and_congr_left fun _ => ⟨fun passed => ⟨?_, passed⟩, fun passed => passed.2⟩
        rintro order ⟨instr, member, rfl⟩
        exact UInt32.lt_trans above (passed.1 _ ⟨instr, member, rfl⟩)
      · rw [if_neg formed]
        simp [formed]

/-- A well formed LABEL has its name as its only argument. -/
theorem defines_iff_of_well_formed {instr : Instruction} (formed : instr.isWellFormed = true)
    (name : String) : Defines instr name ↔ instr.opcode = .label ∧ instr.args = [⟨.label, name⟩] := by
  obtain ⟨order, opcode, args⟩ := instr
  simp only [Defines]
  refine and_congr_right fun labelled => ⟨fun named => ?_, fun whole => by simp [whole]⟩
  subst labelled
  simp only [Instruction.isWellFormed, Opcode.arity, Opcode.operands, List.length_cons,
    List.length_nil, Bool.and_eq_true, beq_iff_eq] at formed
  obtain ⟨single, kinds⟩ := formed
  match args, single with
  | [⟨kind, text⟩], _ =>
    simp only [List.head?_cons, Option.map_some, Option.some.injEq] at named
    cases kind <;> simp_all [Shape.accepts]

/-- A program loads exactly when its instructions pass the check in the order of
execution and have a table of labels. -/
theorem load_ok_iff {program : Program} {code : Code} :
    Code.load program = .ok code ↔ Code.check 0 program.sorted = .ok () ∧
      LabelTable.ofInstructions program.sorted = .ok code.labels ∧
      code.instructions = program.sorted := by
  obtain ⟨instructions, labels⟩ := code
  unfold Code.load
  cases checked : Code.check 0 program.sorted with
  | error fault => simp [checked]
  | ok passed =>
    cases built : LabelTable.ofInstructions program.sorted with
    | error fault => simp [checked, built]
    | ok table => simp [checked, built, eq_comm, and_comm]

/-- What loading a program leads to: the instructions in the order of execution, all
well formed, with the table of their labels. -/
theorem load_ok {program : Program} {code : Code} (loaded : Code.load program = .ok code) :
    code.instructions = program.sorted ∧
      (∀ instr ∈ code.instructions, instr.isWellFormed = true) ∧
      LabelTable.ofInstructions code.instructions = .ok code.labels := by
  obtain ⟨checked, built, instructions⟩ := load_ok_iff.mp loaded
  rw [instructions]
  exact ⟨rfl, (check_ok_iff.mp checked).2, built⟩

/-- The instruction at a position of a loaded program, counted from one. -/
theorem fetch_some_iff {code : Code} {position : Nat} {instr : Instruction} :
    code.fetch? position = some instr ↔
      1 ≤ position ∧ code.instructions[position - 1]? = some instr := by
  unfold Code.fetch?
  split
  · simp_all
  · simp only [iff_and_self]
    omega

/-- There is no instruction to fetch at position zero, or behind the last one. -/
theorem fetch_none_iff {code : Code} {position : Nat} :
    code.fetch? position = none ↔ position = 0 ∨ code.size < position := by
  unfold Code.fetch? Code.size
  split
  · simp_all
  · rw [List.getElem?_eq_none_iff]
    omega

end Framecode.Engine
