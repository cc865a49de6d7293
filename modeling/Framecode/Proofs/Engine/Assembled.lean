import Framecode.Proofs.Engine.Failures
import Framecode.Proofs.Source.RoundTrip

/-! Programs that come from source text. What the assembler has checked is enough for
the machine: such a program loads unless it defines a label twice, and the texts of its
arguments are never found to be badly formed while it runs. The one thing left for the
machine to refuse is a READ of nil, which the language of source lines allows. -/
namespace Framecode.Engine

open Source

/-! ## Loading -/

/-- Well formed instructions whose orders count up by one pass the check of a loader. -/
theorem check_of_counting {instructions : List Instruction} {last : UInt32}
    (counting : ∀ index instr, instructions[index]? = some instr →
      instr.order.toNat = last.toNat + index + 1)
    (formed : ∀ instr ∈ instructions, instr.isWellFormed = true) :
    Code.check last instructions = .ok () := by
  induction instructions generalizing last with
  | nil => rfl
  | cons instr rest ih =>
    have next : instr.order.toNat = last.toNat + 1 := counting 0 instr rfl
    have above : ¬ instr.order ≤ last := by
      rw [UInt32.le_iff_toNat_le]
      omega
    rw [Code.check, if_neg above, if_pos (formed instr List.mem_cons_self)]
    refine ih ?_ fun other member => formed other (List.mem_cons_of_mem _ member)
    intro index other held
    rw [counting (index + 1) other held, next]
    omega

namespace LabelTable

/-- A well formed instruction is refused by a label table only for a label that stands
there already. -/
theorem add_error {table : LabelTable} {position : Nat} {instr : Instruction} {fault : Fault}
    (formed : instr.isWellFormed = true) (refused : table.add position instr = .error fault) :
    ∃ label, fault = ⟨instr.order, .duplicateLabel label⟩ := by
  unfold add at refused
  split at refused
  · rename_i labelled
    split at refused
    · rename_i none
      rw [Instruction.isWellFormed, labelled, none] at formed
      cases formed
    · rename_i arg others args
      split at refused
      · cases refused
        exact ⟨arg.text, rfl⟩
      · cases refused
  · cases refused

/-- Well formed instructions have a label table unless a label is defined twice. -/
theorem addAll_error {table : LabelTable} {start : Nat} {instructions : List Instruction}
    {fault : Fault} (formed : ∀ instr ∈ instructions, instr.isWellFormed = true)
    (refused : table.addAll start instructions = .error fault) :
    ∃ instr ∈ instructions, ∃ label, fault = ⟨instr.order, .duplicateLabel label⟩ := by
  induction instructions generalizing table start with
  | nil => cases refused
  | cons instr rest ih =>
    rw [addAll] at refused
    split at refused
    · rename_i here
      cases refused
      exact ⟨instr, List.mem_cons_self, add_error (formed instr List.mem_cons_self) here⟩
    · obtain ⟨other, member, repeated⟩ :=
        ih (fun other member => formed other (List.mem_cons_of_mem _ member)) refused
      exact ⟨other, List.mem_cons_of_mem _ member, repeated⟩

end LabelTable

/-- A program that a text could spell loads exactly as its label table is built. -/
theorem load_eq_of_listable {program : Program} (listable : Listable program) :
    Code.load program =
      (LabelTable.ofInstructions program.instructions).map (⟨program.instructions, ·⟩) := by
  have checked : Code.check 0 program.instructions = .ok () := by
    refine check_of_counting ?_ listable.formed
    intro index instr held
    rw [listable.numbered index instr held]
    simp
  simp only [Code.load, sorted_of_numbered listable.numbered, checked]
  cases LabelTable.ofInstructions program.instructions <;> rfl

/-- A program that a text could spell loads unless a label is defined twice. -/
theorem load_of_listable {program : Program} (listable : Listable program) :
    (∃ code, Code.load program = .ok code) ∨
      ∃ instr ∈ program.instructions, ∃ label,
        Code.load program = .error ⟨instr.order, .duplicateLabel label⟩ := by
  rw [load_eq_of_listable listable]
  cases built : LabelTable.ofInstructions program.instructions with
  | ok labels => exact .inl ⟨⟨program.instructions, labels⟩, rfl⟩
  | error fault =>
    obtain ⟨instr, member, label, rfl⟩ := LabelTable.addAll_error listable.formed built
    exact .inr ⟨instr, member, label, rfl⟩

/-! ## Arguments -/

/-- A word that names a variable is read as one. -/
theorem parse_variable_word {word : String} (named : VariableWord word) :
    ∃ var, VarRef.parse word = .ok var := by
  obtain ⟨role, name, rfl, first, rest, spelled, _⟩ := named
  have filled : name ≠ "" := by
    rintro rfl
    exact List.cons_ne_nil first rest (spelled.symm.trans String.toList_empty)
  have parsed := @parse_display ⟨role, name⟩ filled
  rw [VarRef.display] at parsed
  exact ⟨_, parsed⟩

/-- An argument in the grammar of source lines is never malformed. -/
theorem inGrammar_not_malformed {arg : Argument} {error : DecodeError} (spelled : InGrammar arg) :
    ¬ Malformed arg error := by
  obtain ⟨kind, text⟩ := arg
  rintro (⟨rfl, refused⟩ | ⟨type, rfl, refused⟩)
  · obtain ⟨var, parsed⟩ := parse_variable_word spelled
    rw [Argument.varRef, parsed] at refused
    cases refused
  · have literal : LiteralText type text := by
      cases type with
      | int | bool | nil => exact spelled
      | string => exact spelled.1
    obtain ⟨value, decoded⟩ := decode_ok_iff.mpr literal
    rw [decoded] at refused
    cases refused

/-- The only name of a type that cannot be read is nil. -/
theorem unreadable_type_name {type : ValueType} (unreadable : Readable.ofName? type.name = none) :
    type.name = "nil" := by
  cases type with
  | nil => rfl
  | int | bool | string => cases unreadable

/-- A fault of a program that a text could spell is never about a malformed argument, and
of all the faults in the structure of a program only one is left: a READ of nil. -/
theorem listable_fault {program : Program} {machine : Machine} {input : Input} {fuel : Nat}
    {fault : Fault} (listable : Listable program) (loaded : Code.load program = .ok machine.code)
    (failed : (machine.run fuel (.initial input)).outcome = some (.failed fault)) :
    (∀ error, fault.cause ≠ .malformedArgument error) ∧
      (fault.cause.kind = .invalidSourceStructure →
        fault.cause = .unsupportedReadType "nil" ∧
          ∃ target, ⟨fault.order, .read, [target, ⟨.typeName, "nil"⟩]⟩ ∈ program.instructions) := by
  obtain ⟨before, instr, _, fetched, refused, order⟩ := fault_at_last_fetched failed
  have member := (loaded_mem_iff loaded).mp (fetch_member fetched)
  have right := justified_of_effect (listable.formed instr member) refused
  have unmalformed : ∀ error, fault.cause ≠ .malformedArgument error := by
    intro error same
    rw [same] at right
    obtain ⟨arg, inArgs, malformed⟩ := right
    exact inGrammar_not_malformed (listable.spelled instr member arg inArgs) malformed
  refine ⟨unmalformed, ?_⟩
  intro structural
  cases cause : fault.cause with
  | malformedArgument error => exact absurd cause (unmalformed error)
  | malformedInstruction opcode | invalidOrder =>
    rw [cause] at right
    exact right.elim
  | unsupportedReadType word =>
    rw [cause] at right
    obtain ⟨opcode, ⟨target, args⟩, unreadable⟩ := right
    obtain ⟨type, rfl⟩ : ∃ type : ValueType, word = type.name :=
      listable.spelled instr member ⟨.typeName, word⟩ (by simp [args])
    have nil := unreadable_type_name unreadable
    refine ⟨by rw [nil], target, ?_⟩
    rw [← nil, order, ← opcode, ← args]
    exact member
  | _ =>
    rw [cause] at structural
    cases structural

/-- What the assembler accepts, the machine can run. A program assembled from a text with
fewer than 2^32 instruction lines loads unless it defines a label twice; and whatever its
input and its sink, the one fault in its structure that a run can end in is that of a
READ of nil, so that no argument is ever found malformed. -/
theorem assembled_program_is_sound {text : String} {program : Program}
    (few : (spelledLines text).tail.length < UInt32.size)
    (assembled : assemble text = .ok program) :
    ((∃ code, Code.load program = .ok code) ∨
      ∃ order label, Code.load program = .error ⟨order, .duplicateLabel label⟩) ∧
    ∀ machine : Machine, Code.load program = .ok machine.code →
      ∀ input fuel fault, (machine.run fuel (.initial input)).outcome = some (.failed fault) →
        (∀ error, fault.cause ≠ .malformedArgument error) ∧
        (fault.cause.kind = .invalidSourceStructure →
          fault.cause = .unsupportedReadType "nil" ∧
            ∃ target,
              ⟨fault.order, .read, [target, ⟨.typeName, "nil"⟩]⟩ ∈ program.instructions) := by
  have listable := listable_of_spelled ((assemble_ok_iff few).mp assembled)
  refine ⟨?_, fun machine loaded input fuel fault failed => listable_fault listable loaded failed⟩
  rcases load_of_listable listable with loads | ⟨instr, _, label, refused⟩
  · exact .inl loads
  · exact .inr ⟨instr.order, label, refused⟩

/-- A source text that asks for a nil on its input. -/
def askingNil : String := ".ippCODE24\nDEFVAR GF@x\nREAD GF@x nil"

/-- The program that it spells. -/
def askingNilProgram : Program :=
  ⟨[⟨1, .defVar, [⟨.var, "GF@x"⟩]⟩, ⟨2, .read, [⟨.var, "GF@x"⟩, ⟨.typeName, "nil"⟩]⟩]⟩

theorem asking_nil_is_sound :
    (spelledLines askingNil).tail.length < UInt32.size ∧
    assemble askingNil = .ok askingNilProgram ∧
    (Machine.run ⟨⟨askingNilProgram.instructions, {}⟩, .accepting⟩ 9 (.initial {})).outcome =
      some (.failed ⟨2, .unsupportedReadType "nil"⟩) ∧
    ∃ target, ⟨2, .read, [target, ⟨.typeName, "nil"⟩]⟩ ∈ askingNilProgram.instructions := by
  have few : (spelledLines askingNil).tail.length < UInt32.size := by decide +kernel
  have assembled : assemble askingNil = .ok askingNilProgram := by decide +kernel
  have sorted : askingNilProgram.sorted = askingNilProgram.instructions :=
    sorted_eq_self_iff.mpr (by unfold Ordered; decide)
  have loaded : Code.load askingNilProgram = .ok ⟨askingNilProgram.instructions, {}⟩ := by
    rw [Code.load, sorted]
    rfl
  have failed : (Machine.run ⟨⟨askingNilProgram.instructions, {}⟩, .accepting⟩ 9
      (.initial {})).outcome = some (.failed ⟨2, .unsupportedReadType "nil"⟩) := by
    rfl
  obtain ⟨_, faults⟩ := assembled_program_is_sound few assembled
  have structural := (faults ⟨_, .accepting⟩ loaded {} 9 _ failed).2 rfl
  exact ⟨few, assembled, failed, structural.2⟩

end Framecode.Engine
