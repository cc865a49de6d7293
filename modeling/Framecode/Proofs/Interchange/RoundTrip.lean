import Framecode.Proofs.Interchange.Reading
import Framecode.Proofs.Sorting

/-! Programs written as documents and read back. A document loses the place of an
instruction among those of other orders and the blanks around the text of an argument;
it keeps everything else, unless it cannot be read at all. -/
namespace Framecode.Interchange

/-- What is read back in the place of an argument. Nothing is said of a text with a
carriage return in it, whose line ends a document may change. -/
structure ArgumentKept (before after : Argument) : Prop where
  kind : after.kind = before.kind
  text : '\r' ∉ before.text.toList → Text.Trims before.text.toList after.text.toList

/-- What is read back in the place of an instruction. -/
structure InstructionKept (before after : Instruction) : Prop where
  order : after.order = before.order
  opcode : after.opcode = before.opcode
  args : List.Forall₂ ArgumentKept before.args after.args

private theorem recoveredArgument_unreturned {arg : Argument} (plain : '\r' ∉ arg.text.toList) :
    recoveredArgument arg = ⟨arg.kind, Text.trimmed arg.text⟩ := by
  rw [recoveredArgument, content_unreturned plain]

private theorem recoveredArgument_kept (arg : Argument) :
    ArgumentKept arg (recoveredArgument arg) := by
  refine ⟨by rw [recoveredArgument], fun plain => ?_⟩
  have text : (recoveredArgument arg).text.toList = Text.trim arg.text.toList := by
    rw [recoveredArgument_unreturned plain]
    exact String.toList_ofList
  rw [text]
  exact Text.trims_trim arg.text.toList

private theorem recovered_kept (instr : Instruction) : InstructionKept instr (recovered instr) :=
  ⟨rfl, rfl,
    List.forall₂_map_right_iff.mpr (List.forall₂_same.mpr fun arg _ => recoveredArgument_kept arg)⟩

private theorem map_eq_self_iff {α : Type} {f : α → α} {items : List α} :
    items.map f = items ↔ ∀ item ∈ items, f item = item := by
  have compared := @List.map_inj_left _ _ items f id
  rwa [List.map_id] at compared

private theorem recovered_eq_self_iff {instr : Instruction}
    (plain : ∀ arg ∈ instr.args, '\r' ∉ arg.text.toList) :
    recovered instr = instr ↔ ∀ arg ∈ instr.args, Text.Bare arg.text.toList := by
  have same : recovered instr = instr ↔ instr.args.map recoveredArgument = instr.args := by
    constructor
    · intro whole
      exact congrArg Instruction.args whole
    · intro args
      unfold recovered
      rw [args]
  rw [same, map_eq_self_iff]
  refine forall₂_congr fun arg member => ?_
  rw [recoveredArgument_unreturned (plain arg member), ← Text.trimmed_eq_self_iff]
  constructor
  · intro whole
    exact congrArg Argument.text whole
  · intro text
    rw [text]

private theorem sorted_mem_iff {program : Program} {instr : Instruction} :
    instr ∈ program.sorted ↔ instr ∈ program.instructions :=
  (sorted_perm program).mem_iff

private theorem forbidden_sorted_iff {program : Program} :
    Forbidden program.sorted ↔ Forbidden program.instructions := by
  simp only [Forbidden, sorted_mem_iff]

private theorem miscounted_sorted_iff {program : Program} :
    Miscounted program.sorted ↔ Miscounted program.instructions := by
  simp only [Miscounted, sorted_mem_iff]

theorem read_forbidden {program : Program} (forbidden : Forbidden program.instructions) :
    read (write program) = .error .malformed := by
  rw [read, document_forbidden (forbidden_sorted_iff.mpr forbidden)]
  rfl

/-- Without forbidden characters, the reading of a document is that of its instructions. -/
theorem read_instructions {program : Program} (clear : ¬Forbidden program.instructions) :
    ∃ elements, List.Forall₂ InstructionElement program.sorted elements ∧
      read (write program) = (readInstructions elements).map Program.mk := by
  obtain ⟨node, formed, document⟩ := document_written (mt forbidden_sorted_iff.mp clear)
  obtain ⟨root, elements, held, all, whole⟩ := program_element formed
  refine ⟨elements, all, ?_⟩
  rw [read, document, Option.bind_some, held]
  exact whole

private theorem read_miscounted {program : Program} (clear : ¬Forbidden program.instructions)
    (miscounted : Miscounted program.instructions) :
    ∃ line problem, read (write program) = .error (.structural line problem) := by
  obtain ⟨elements, all, whole⟩ := read_instructions clear
  obtain ⟨line, problem, refused⟩ :=
    readInstructions_refused all (miscounted_sorted_iff.mpr miscounted)
  exact ⟨line, problem, by rw [whole, refused]; rfl⟩

/-- A program with the right numbers of arguments comes back sorted. -/
theorem read_counted {program : Program} (clear : ¬Forbidden program.instructions)
    (counted : ¬Miscounted program.instructions) :
    read (write program) = .ok ⟨program.sorted.map recovered⟩ := by
  obtain ⟨elements, all, whole⟩ := read_instructions clear
  rw [whole, readInstructions_recovered all (mt miscounted_sorted_iff.mp counted)]
  rfl

/-- A program whose texts hold no carriage return comes back as it is exactly when there
is nothing for the document to lose. -/
theorem recovered_program_iff {program : Program}
    (plain : ∀ instr ∈ program.instructions, ∀ arg ∈ instr.args, '\r' ∉ arg.text.toList) :
    program.sorted.map recovered = program.instructions ↔
      Ordered program.instructions ∧
      ∀ instr ∈ program.instructions, ∀ arg ∈ instr.args, Text.Bare arg.text.toList := by
  have each : program.instructions.map recovered = program.instructions ↔
      ∀ instr ∈ program.instructions, ∀ arg ∈ instr.args, Text.Bare arg.text.toList := by
    rw [map_eq_self_iff]
    exact forall₂_congr fun instr member => recovered_eq_self_iff (plain instr member)
  constructor
  · intro same
    have ordered : Ordered program.instructions := by
      rw [← same]
      exact List.pairwise_map.mpr (sorted_ordered program)
    rw [sorted_eq_self_iff.mpr ordered] at same
    exact ⟨ordered, each.mp same⟩
  · rintro ⟨ordered, bare⟩
    rw [sorted_eq_self_iff.mpr ordered]
    exact each.mpr bare

/-- A document with a forbidden character is malformed, and one with a wrong number of
arguments breaks the structure of programs. Any other document gives its program back in
the order of execution, with the texts trimmed; so without carriage returns a program comes
back as it was exactly when it was in that order and its texts were trimmed already. -/
theorem read_write_exact (program : Program) :
    (Forbidden program.instructions → read (write program) = .error .malformed) ∧
    (¬Forbidden program.instructions → Miscounted program.instructions →
      ∃ line problem, read (write program) = .error (.structural line problem)) ∧
    (¬Forbidden program.instructions → ¬Miscounted program.instructions →
      ∃ sorted result, StablySorted program.instructions sorted ∧
        read (write program) = .ok ⟨result⟩ ∧ List.Forall₂ InstructionKept sorted result) ∧
    ((∀ instr ∈ program.instructions, ∀ arg ∈ instr.args, '\r' ∉ arg.text.toList) →
      (read (write program) = .ok program ↔
        Ordered program.instructions ∧ ¬Miscounted program.instructions ∧
        (∀ instr ∈ program.instructions, ∀ arg ∈ instr.args, Text.Bare arg.text.toList) ∧
        ¬Forbidden program.instructions)) := by
  refine ⟨read_forbidden, read_miscounted, fun clear counted => ?_, fun plain => ?_⟩
  · refine ⟨program.sorted, program.sorted.map recovered, sorted_stable program, ?_, ?_⟩
    · exact read_counted clear counted
    · rw [List.forall₂_map_right_iff, List.forall₂_same]
      exact fun instr _ => recovered_kept instr
  · constructor
    · intro same
      -- Either fault would show as an error in the place of the program.
      have clear : ¬Forbidden program.instructions := by
        intro forbidden
        rw [read_forbidden forbidden] at same
        cases same
      have counted : ¬Miscounted program.instructions := by
        intro miscounted
        obtain ⟨line, problem, refused⟩ := read_miscounted clear miscounted
        rw [refused] at same
        cases same
      rw [read_counted clear counted] at same
      obtain ⟨ordered, bare⟩ := (recovered_program_iff plain).mp
        (congrArg Program.instructions (Except.ok.inj same))
      exact ⟨ordered, counted, bare, clear⟩
    · rintro ⟨ordered, counted, bare, clear⟩
      rw [read_counted clear counted, (recovered_program_iff plain).mpr ⟨ordered, bare⟩]

end Framecode.Interchange
