import Framecode.Proofs.Command.Files
import Framecode.Proofs.Engine.Failures
import Framecode.Proofs.Engine.Positions
import Framecode.Proofs.Interchange.RoundTrip

/-! What loading a program looks at, and so what a check of it can tell. The kinds of its
arguments are looked at, and the names of its labels, but the text of a literal or of a
variable is left until the instruction is executed. A text that spells nothing passes every
check and is found when a run comes to it, if one ever does. -/
namespace Framecode

/-- An argument of the same kind with another text. Labels keep theirs. -/
def Argument.retext (change : Argument → String) (arg : Argument) : Argument :=
  if arg.kind = .label then arg else { arg with text := change arg }

/-- An instruction with other texts in its arguments. -/
def Instruction.retext (change : Argument → String) (instr : Instruction) : Instruction :=
  { instr with args := instr.args.map (·.retext change) }

/-- A program with other texts in its arguments. -/
def Program.retext (change : Argument → String) (program : Program) : Program :=
  ⟨program.instructions.map (·.retext change)⟩

variable {change : Argument → String}

@[simp] theorem retext_kind (arg : Argument) : (arg.retext change).kind = arg.kind := by
  unfold Argument.retext
  split <;> rfl

@[simp] theorem retext_formed (instr : Instruction) :
    (instr.retext change).isWellFormed = instr.isWellFormed := by
  simp [Instruction.isWellFormed, Instruction.retext, List.zip_map_right, Function.comp_def]

/-- The order of execution has nothing to do with the texts. -/
theorem retext_sorted (program : Program) :
    (program.retext change).sorted = program.sorted.map (·.retext change) := by
  rw [Program.sorted, Program.sorted, Program.retext]
  refine (List.map_mergeSort ?_).symm
  intro left _ right _
  rfl

namespace Engine

/-- A loaded program with other texts in its arguments. -/
def Code.retext (change : Argument → String) (code : Code) : Code :=
  { code with instructions := code.instructions.map (·.retext change) }

/-! ## Loading -/

private theorem check_retext (last : UInt32) (instructions : List Instruction) :
    Code.check last (instructions.map (·.retext change)) = Code.check last instructions := by
  induction instructions generalizing last with
  | nil => rfl
  | cons instr rest ih =>
    rw [List.map_cons, Code.check, Code.check, retext_formed, ← ih]
    rfl

/-- A label table takes the same label from an instruction with other texts, since the one
argument of a LABEL is a label. -/
theorem add_retext (table : LabelTable) (position : Nat) {instr : Instruction}
    (formed : instr.isWellFormed = true) :
    table.add position (instr.retext change) = table.add position instr := by
  by_cases labelled : instr.opcode = .label
  · obtain ⟨order, opcode, args⟩ := instr
    subst labelled
    simp only [Instruction.isWellFormed, Opcode.arity, Opcode.operands, List.length_cons,
      List.length_nil, Bool.and_eq_true, beq_iff_eq] at formed
    obtain ⟨arg, rfl⟩ := List.length_eq_one_iff.mp formed.1
    have kind : arg.kind = .label := kind_of_label_accepts (by simpa using formed.2)
    simp [LabelTable.add, Instruction.retext, Argument.retext, kind]
  · have other : (instr.retext change).opcode ≠ .label := labelled
    rw [LabelTable.add, LabelTable.add, if_neg labelled, if_neg other]

private theorem addAll_retext (table : LabelTable) (start : Nat) {instructions : List Instruction}
    (formed : ∀ instr ∈ instructions, instr.isWellFormed = true) :
    table.addAll start (instructions.map (·.retext change)) = table.addAll start instructions := by
  induction instructions generalizing table start with
  | nil => rfl
  | cons instr rest ih =>
    obtain ⟨first, others⟩ := List.forall_mem_cons.mp formed
    rw [List.map_cons, LabelTable.addAll, LabelTable.addAll, add_retext table start first]
    cases table.add start instr with
    | error fault => rfl
    | ok next => exact ih next (start + 1) others

/-- A program loads, or is refused, in the same way whatever its texts are. -/
theorem load_retext (program : Program) :
    Code.load (program.retext change) = (Code.load program).map (Code.retext change) := by
  simp only [Code.load, retext_sorted, check_retext]
  cases checked : Code.check 0 program.sorted with
  | error fault => rfl
  | ok done =>
    simp only [LabelTable.ofInstructions, addAll_retext {} 1 (check_ok_iff.mp checked).2]
    cases LabelTable.addAll {} 1 program.sorted <;> rfl

/-! ## Running -/

/-- The text of an argument spells what it has to: a literal a value of its type, and a
variable a name in a frame. -/
structure Decodes (arg : Argument) : Prop where
  literal : ∃ value, arg.literal = .ok value
  var : arg.kind = .var → ∃ var, arg.varRef = .ok var

private theorem decodes_not_malformed {arg : Argument} {error : DecodeError}
    (decodes : Decodes arg) :
    ¬ Malformed arg error := by
  rintro (⟨kind, refused⟩ | ⟨type, kind, refused⟩)
  · obtain ⟨var, named⟩ := decodes.var kind
    rw [named] at refused
    cases refused
  · obtain ⟨value, read⟩ := decodes.literal
    rw [Argument.literal, kind] at read
    simp only [refused, Except.map] at read
    cases read

/-- A run that finds an argument malformed finds it in an instruction that has one. -/
theorem malformed_of_fault {program : Program} {machine : Machine} {input : Input} {fuel : Nat}
    {order : UInt32} {error : DecodeError} (loaded : Code.load program = .ok machine.code)
    (failed : (machine.run fuel (.initial input)).outcome =
      some (.failed ⟨order, .malformedArgument error⟩)) :
    ∃ instr ∈ program.instructions, instr.order = order ∧ ∃ arg ∈ instr.args,
      Malformed arg error := by
  obtain ⟨before, instr, _, fetched, refused, same⟩ := fault_at_last_fetched failed
  have formed := (load_ok loaded).2.1 instr (fetch_member fetched)
  have blamed := justified_of_effect formed refused
  exact ⟨instr, (loaded_mem_iff loaded).mp (fetch_member fetched), same.symm, blamed⟩

end Engine

namespace Command

open Engine

private theorem checkReport_retext (path : String) (program : Program) :
    checkReport path (program.retext change) = checkReport path program := by
  rw [checkReport, checkReport, load_retext]
  cases Code.load program with
  | error fault => rfl
  | ok code =>
    simp only [Except.map, Code.retext, Code.size, List.length_map]

/-- A check of a file answers for the program in it. -/
theorem check_answers {σ : Type} {host : Host (StateM σ)} (steady : host.Steady) {state : σ}
    {path : String} {program : Program} (held : host.programAt state path = .ok program)
    (fuel : Nat) :
    (invoke host fuel ["check", path]).run state =
      (some (checkReport path program), state) := by
  have asked : Request.ofArguments ["check", path] = .ok (.check path) := rfl
  rw [Host.invoke_ends asked (steady.perform_check state path fuel), held]
  rfl

/-- Loading a program does not check the text of a literal or of a variable. Whatever texts
these are given, the program loads or is refused as before, and so a check of a file says
the same of it, on whatever host. It is a run of a loaded program that finds a malformed
argument, and only at an instruction that has one; so if all texts can be decoded, no run ever
does. -/
theorem texts_are_not_checked (program : Program) (change : Argument → String) :
    Code.load (program.retext change) = (Code.load program).map (Code.retext change) ∧
    (∀ {σ : Type} (host : Host (StateM σ)), host.Steady →
      ∀ (state : σ) (fuel : Nat) (path : String),
      host.programAt state path = .ok (program.retext change) →
        (invoke host fuel ["check", path]).run state =
          (some (checkReport path program), state)) ∧
    ∀ machine : Machine, Code.load program = .ok machine.code →
      (∀ input fuel order error, (machine.run fuel (.initial input)).outcome =
          some (.failed ⟨order, .malformedArgument error⟩) →
        ∃ instr ∈ program.instructions, instr.order = order ∧ ∃ arg ∈ instr.args,
          Malformed arg error) ∧
      ((∀ instr ∈ program.instructions, ∀ arg ∈ instr.args, Decodes arg) →
        ∀ input fuel order error, (machine.run fuel (.initial input)).outcome ≠
          some (.failed ⟨order, .malformedArgument error⟩)) := by
  refine ⟨load_retext program, ?_, fun machine loaded => ⟨?_, ?_⟩⟩
  · intro σ host steady state fuel path held
    rw [check_answers steady held, checkReport_retext]
  · intro input fuel order error failed
    exact malformed_of_fault loaded failed
  · intro decodes input fuel order error failed
    obtain ⟨instr, member, _, arg, argMember, malformed⟩ := malformed_of_fault loaded failed
    exact decodes_not_malformed (decodes instr member arg argMember) malformed

/-- A program that writes an integer spelled with letters. -/
def misspelt : Program := ⟨[⟨1, .write, [⟨.literal .int, "abc"⟩]⟩]⟩

/-- The same program once it is loaded. -/
def misspeltCode : Code := ⟨misspelt.instructions, {}⟩

theorem misspelt_loads :
    Interchange.read (Interchange.write misspelt) = .ok misspelt ∧
    Code.load misspelt = .ok misspeltCode ∧
    (Argument.literal ⟨.literal .int, "abc"⟩) = .error (.integer "abc") ∧
    (∀ path, (checkReport path misspelt).status = 0) ∧
    (Machine.run ⟨misspeltCode, .accepting⟩ 1 (.initial {})).outcome =
      some (.failed ⟨1, .malformedArgument (.integer "abc")⟩) := by
  have sorted : misspelt.sorted = misspelt.instructions :=
    sorted_eq_self_iff.mpr (List.pairwise_singleton _ _)
  have clear : ¬Interchange.Forbidden misspelt.instructions := by
    simp [Interchange.Forbidden, misspelt, Interchange.ForbiddenChar]
  have counted : ¬Interchange.Miscounted misspelt.instructions := by
    simp [Interchange.Miscounted, misspelt, Opcode.arity, Opcode.operands]
  have loaded : Code.load misspelt = .ok misspeltCode := load_of_listed rfl rfl rfl
  refine ⟨?_, loaded, rfl, fun path => ?_, rfl⟩
  · rw [Interchange.read_counted clear counted, sorted]
    decide +kernel
  · rw [checkReport, loaded]

end Command

end Framecode
