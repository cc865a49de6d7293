import Framecode.Proofs.Interchange.Escaping
import Framecode.Proofs.Literal.Numerals
import Framecode.Proofs.Xml.Elements
import Mathlib.Data.List.Basic

/-! Documents of programs as tags with texts before them. Seen this way every line end
belongs to what follows it, and a document is one element with elements in a row inside,
whose texts are blank but for those of arguments. -/
namespace Framecode.Interchange

/-! ## Elements of a program -/

def argumentName (number : Nat) : String := "arg" ++ toString number

def argumentAttributes (arg : Argument) : List Xml.Attribute := [⟨⟨"", "type"⟩, arg.kind.name⟩]

def instructionAttributes (instr : Instruction) : List Xml.Attribute :=
  [⟨⟨"", "order"⟩, toString instr.order.toNat⟩, ⟨⟨"", "opcode"⟩, instr.opcode.mnemonic⟩]

def programAttributes : List Xml.Attribute := [⟨⟨"", "language"⟩, "IPPcode24"⟩]

private theorem numeral_value (number : Nat) : Xml.PlainValue (toString number) := by
  intro c member
  have digit := Integer.numeral_digit member
  refine ⟨?_, ?_⟩
  · rw [Xml.isAllowed, if_neg (by omega), Bool.and_eq_true, bne_iff_ne, bne_iff_ne]
    omega
  · intro held
    simp only [List.mem_cons, List.not_mem_nil, or_false] at held
    rcases held with rfl | rfl | rfl | rfl | rfl | rfl
    all_goals exact absurd digit (by decide)

private theorem argument_plain (number : Nat) (arg : Argument) :
    Xml.PlainElement (argumentName number) (argumentAttributes arg) := by
  have value : Xml.PlainValue arg.kind.name := by
    cases arg.kind with
    | literal type => cases type <;> decide
    | var | label | typeName => decide
  refine ⟨⟨?_, ?_⟩, ?_, by simp [argumentAttributes]⟩
  · rw [argumentName, String.toList_append]
    rfl
  · intro c member
    rw [argumentName, String.toList_append, List.mem_append] at member
    rcases member with letter | digit
    · exact (by decide : Xml.PlainName "arg").2 c letter
    · have bounds := Integer.numeral_digit digit
      refine ⟨?_, ?_⟩
      · have digits : Text.inRanges Xml.nameRestRanges c = true := by
          rw [Text.inRanges, List.any_eq_true]
          refine ⟨(0x30, 0x39), by decide, ?_⟩
          simpa using bounds
        rw [Xml.continuesName, digits, Bool.or_true]
      · rintro rfl
        exact absurd bounds (by decide)
  · intro attr member
    rw [List.mem_singleton.mp member]
    exact Xml.plainAttribute (by decide) (by decide) value

private theorem instruction_plain (instr : Instruction) :
    Xml.PlainElement "instruction" (instructionAttributes instr) := by
  have mnemonic : Xml.PlainValue instr.opcode.mnemonic := by
    cases instr.opcode <;> decide
  refine ⟨by decide, ?_, by simp [instructionAttributes]⟩
  intro attr member
  simp only [instructionAttributes, List.mem_cons, List.not_mem_nil, or_false] at member
  rcases member with rfl | rfl
  · exact Xml.plainAttribute (by decide) (by decide) (numeral_value _)
  · exact Xml.plainAttribute (by decide) (by decide) mnemonic

private theorem program_plain : Xml.PlainElement "program" programAttributes := by
  refine ⟨by decide, ?_, by simp [programAttributes]⟩
  intro attr member
  rw [List.mem_singleton.mp member]
  exact Xml.plainAttribute (by decide) (by decide) (by decide)

/-! ## Marks of a program -/

def argumentIndent : List Char := ['\n', ' ', ' ', ' ', ' ']

def instructionIndent : List Char := ['\n', ' ', ' ']

def argumentMarks (entry : Argument × Nat) : List Xml.Mark :=
  Xml.elementMarks argumentIndent (argumentName entry.2) (argumentAttributes entry.1) []
    (entry.1.text.toList.flatMap escapeChar)

def instructionMarks (instr : Instruction) : List Xml.Mark :=
  Xml.elementMarks instructionIndent "instruction" (instructionAttributes instr)
    ((instr.args.zipIdx 1).flatMap argumentMarks) instructionIndent

def programMarks (instructions : List Instruction) : List Xml.Mark :=
  Xml.elementMarks ['\n'] "program" programAttributes (instructions.flatMap instructionMarks) ['\n']

/-- What is written for an argument, with the line end before it and some text after. -/
theorem argument_marks_written (number : Nat) (arg : Argument) (tail : List Char) :
    '\n' :: ((writeArgument number arg).toList ++ tail) =
      (argumentMarks (arg, number)).flatMap Xml.Mark.render ++ '\n' :: tail := by
  unfold writeArgument
  simp [argumentMarks, Xml.elementMarks, Xml.Mark.render, argumentIndent, Xml.opening, Xml.closing,
    argumentName, argumentAttributes, Xml.attributeText, escape]

private theorem arguments_marks_written (start : Nat) (args : List Argument) (tail : List Char) :
    '\n' :: ((writeArguments start args).toList ++ tail) =
      ((args.zipIdx start).flatMap argumentMarks).flatMap Xml.Mark.render ++ '\n' :: tail := by
  induction args generalizing start with
  | nil => rfl
  | cons arg rest ih =>
    rw [writeArguments, String.toList_append, List.append_assoc, argument_marks_written,
      ih (start + 1), List.zipIdx_cons, List.flatMap_cons, List.flatMap_append, List.append_assoc]

private theorem instruction_marks_written (instr : Instruction) (tail : List Char) :
    '\n' :: ((writeInstruction instr).toList ++ tail) =
      (instructionMarks instr).flatMap Xml.Mark.render ++ '\n' :: tail := by
  have inner := arguments_marks_written 1 instr.args
  unfold writeInstruction instructionMarks Xml.elementMarks
  rw [List.flatMap_cons, List.flatMap_append]
  -- The marks inside stay closed, so that only the two tags around them are compared.
  generalize ((instr.args.zipIdx 1).flatMap argumentMarks).flatMap Xml.Mark.render = marks at inner ⊢
  simp [Xml.Mark.render, instructionIndent, Xml.opening, Xml.closing, instructionAttributes,
    Xml.attributeText, inner]

private theorem instructions_marks_written (instructions : List Instruction) (tail : List Char) :
    '\n' :: ((String.join (instructions.map writeInstruction)).toList ++ tail) =
      (instructions.flatMap instructionMarks).flatMap Xml.Mark.render ++ '\n' :: tail := by
  induction instructions with
  | nil => rfl
  | cons instr rest ih =>
    rw [List.map_cons, String.join_cons, String.toList_append, List.append_assoc,
      instruction_marks_written, ih, List.flatMap_cons, List.flatMap_append, List.append_assoc]

/-- A document is the declaration, the marks of its program and a line end. -/
theorem program_marks_written (program : Program) :
    (write program).toList =
      Xml.declaration ++ ((programMarks program.sorted).flatMap Xml.Mark.render ++ ['\n']) := by
  have inner := instructions_marks_written program.sorted
  unfold write programMarks Xml.elementMarks Xml.declaration
  rw [List.flatMap_cons, List.flatMap_append]
  generalize (program.sorted.flatMap instructionMarks).flatMap Xml.Mark.render = marks at inner ⊢
  generalize String.join (program.sorted.map writeInstruction) = body at inner ⊢
  simp [Xml.Mark.render, Xml.opening, Xml.closing, programAttributes, Xml.attributeText, inner]

private theorem argumentMarks_clean (entry : Argument × Nat) :
    ∀ mark ∈ argumentMarks entry, mark.Clean :=
  Xml.elementMarks_clean (argument_plain entry.2 entry.1) (by decide)
    (fun member => (escaped_unmarked member).1 rfl) (by simp)

private theorem instructionMarks_clean (instr : Instruction) :
    ∀ mark ∈ instructionMarks instr, mark.Clean := by
  refine Xml.elementMarks_clean (instruction_plain instr) (by decide) (by decide) ?_
  intro mark member
  obtain ⟨entry, _, held⟩ := List.mem_flatMap.mp member
  exact argumentMarks_clean entry mark held

private theorem programMarks_clean (instructions : List Instruction) :
    ∀ mark ∈ programMarks instructions, mark.Clean := by
  refine Xml.elementMarks_clean program_plain (by decide) (by decide) ?_
  intro mark member
  obtain ⟨instr, _, held⟩ := List.mem_flatMap.mp member
  exact instructionMarks_clean instr mark held

/-! ## Reading a document -/

/-- The node of an argument: its kind, and its text as it is read. -/
def ArgumentNode (entry : Argument × Nat) : Xml.Node → Prop :=
  Xml.ElementNode (argumentName entry.2) (argumentAttributes entry.1) (· = []) (content entry.1.text)

/-- The node of an instruction: its order, its opcode and its arguments. -/
def InstructionNode (instr : Instruction) : Xml.Node → Prop :=
  Xml.ElementNode "instruction" (instructionAttributes instr)
    (Xml.Row (String.ofList argumentIndent) ArgumentNode (instr.args.zipIdx 1))
    (String.ofList instructionIndent)

def ProgramNode (instructions : List Instruction) : Xml.Node → Prop :=
  Xml.ElementNode "program" programAttributes
    (Xml.Row (String.ofList instructionIndent) InstructionNode instructions) "\n"

private theorem indent_content {indent : List Char}
    (blank : indent.all (fun c => c == '\n' || c == ' ') = true) :
    Xml.textContent? indent = some (String.ofList indent) := by
  have plain : ∀ c ∈ indent, c = '\n' ∨ c = ' ' := by
    intro c member
    simpa using List.all_eq_true.mp blank c member
  have unescaped : indent.flatMap escapeChar = indent := by
    have itself : ∀ c ∈ indent, escapeChar c = [c] := by
      intro c member
      rcases plain c member with rfl | rfl
      · decide
      · decide
    rw [List.flatMap_congr itself, List.flatMap_singleton']
  have allowed : indent.all Xml.isAllowed = true := by
    rw [List.all_eq_true]
    intro c member
    rcases plain c member with rfl | rfl
    · decide
    · decide
  have unreturned : '\r' ∉ indent := by
    intro member
    exact absurd (plain '\r' member) (by decide)
  have read := @textContent_escaped (String.ofList indent)
  rw [String.toList_ofList, unescaped, content_unreturned (by simpa using unreturned)] at read
  exact read allowed

private theorem argument_adds {entry : Argument × Nat}
    (allowed : entry.1.text.toList.all Xml.isAllowed = true) :
    Xml.Adds ((argumentMarks entry).flatMap Xml.Mark.chunks)
      (Xml.After (String.ofList argumentIndent) (ArgumentNode entry)) := by
  rw [argumentMarks, Xml.elementMarks_chunks]
  exact Xml.adds_element (argument_plain entry.2 entry.1) Xml.adds_nil (indent_content (by decide))
    (textContent_escaped allowed)

private theorem instruction_adds {instr : Instruction}
    (allowed : ∀ arg ∈ instr.args, arg.text.toList.all Xml.isAllowed = true) :
    Xml.Adds ((instructionMarks instr).flatMap Xml.Mark.chunks)
      (Xml.After (String.ofList instructionIndent) (InstructionNode instr)) := by
  rw [instructionMarks, Xml.elementMarks_chunks, List.flatMap_assoc]
  refine Xml.adds_element (instruction_plain instr) (Xml.adds_row ?_) (indent_content (by decide))
    (indent_content (by decide))
  intro entry member
  exact argument_adds (allowed entry.1 (List.fst_mem_of_mem_zipIdx member))

/-- A character that no document may hold: a control character other than a tab or a line
end, or one of two code points that are no characters. -/
def ForbiddenChar (c : Char) : Prop :=
  (c.toNat < 0x20 ∧ c ≠ '\t' ∧ c ≠ '\n' ∧ c ≠ '\r') ∨ c.toNat = 0xFFFE ∨ c.toNat = 0xFFFF

private theorem allowed_eq_false_iff {c : Char} : Xml.isAllowed c = false ↔ ForbiddenChar c := by
  rw [Xml.isAllowed, ForbiddenChar]
  split
  · rename_i low
    simp only [Bool.or_eq_false_iff, beq_eq_false_iff_ne]
    constructor
    · rintro ⟨⟨tab, feed⟩, ret⟩
      exact .inl ⟨low, tab, feed, ret⟩
    · rintro (⟨_, tab, feed, ret⟩ | high)
      · exact ⟨⟨tab, feed⟩, ret⟩
      · omega
  · simp only [Bool.and_eq_false_iff, bne_eq_false_iff_eq]
    omega

/-- Whether some argument of some instruction holds a forbidden character. -/
def Forbidden (instructions : List Instruction) : Prop :=
  ∃ instr ∈ instructions, ∃ arg ∈ instr.args, ∃ c ∈ arg.text.toList, ForbiddenChar c

private theorem allowed_of_not_forbidden {instructions : List Instruction}
    (clear : ¬Forbidden instructions) :
    ∀ instr ∈ instructions, ∀ arg ∈ instr.args, arg.text.toList.all Xml.isAllowed = true := by
  intro instr member arg argMember
  rw [List.all_eq_true]
  intro c held
  by_contra forbidden
  rw [Bool.not_eq_true, allowed_eq_false_iff] at forbidden
  exact clear ⟨instr, member, arg, argMember, c, held, forbidden⟩

private theorem document_marks (program : Program) :
    ∃ located, located.map Xml.Located.chunk =
        (programMarks program.sorted).flatMap Xml.Mark.chunks ++ Xml.textChunk ['\n'] ∧
      Xml.document? (write program) = (({} : Xml.Reading).readAll? located).bind fun reading =>
        if reading.path.isEmpty then reading.root else none :=
  Xml.document_declared (program_marks_written program)
    (Xml.cutInto_marks (programMarks_clean program.sorted) (by decide))

/-- The document of a program is read as the program, if it may hold all its texts. -/
theorem document_written {program : Program} (clear : ¬Forbidden program.sorted) :
    ∃ node, ProgramNode program.sorted node ∧ Xml.document? (write program) = some node := by
  obtain ⟨located, chunks, read⟩ := document_marks program
  rw [programMarks, Xml.elementMarks_chunks, List.flatMap_assoc, List.append_assoc] at chunks
  have adds : Xml.Adds
      (program.sorted.flatMap fun instr => (instructionMarks instr).flatMap Xml.Mark.chunks)
      (Xml.Row (String.ofList instructionIndent) InstructionNode program.sorted) :=
    Xml.adds_row fun instr member => instruction_adds (allowed_of_not_forbidden clear instr member)
  obtain ⟨node, formed, whole⟩ :=
    Xml.read_root chunks program_plain adds (indent_content (by decide)) (by decide) (by decide)
  exact ⟨node, formed, by rw [read, whole]; rfl⟩

private theorem argument_mark_mem {instr : Instruction} {instructions : List Instruction}
    {arg : Argument}
    (member : instr ∈ instructions) (argMember : arg ∈ instr.args) :
    ∃ mark ∈ programMarks instructions, mark.before = arg.text.toList.flatMap escapeChar := by
  obtain ⟨index, placed⟩ := List.mem_iff_getElem?.mp argMember
  have entry : (arg, 1 + index) ∈ instr.args.zipIdx 1 := List.mk_add_mem_zipIdx_iff_getElem?.mpr placed
  refine ⟨⟨arg.text.toList.flatMap escapeChar, Xml.closing (argumentName (1 + index))⟩, ?_, rfl⟩
  refine List.mem_cons_of_mem _ (List.mem_append_left _ (List.mem_flatMap.mpr ⟨instr, member, ?_⟩))
  refine List.mem_cons_of_mem _ (List.mem_append_left _ (List.mem_flatMap.mpr ⟨_, entry, ?_⟩))
  exact List.mem_cons_of_mem _ (List.mem_append_right _ (List.mem_singleton.mpr rfl))

/-- A document that would hold a forbidden character is not read at all. -/
theorem document_forbidden {program : Program} (forbidden : Forbidden program.sorted) :
    Xml.document? (write program) = none := by
  obtain ⟨located, chunks, read⟩ := document_marks program
  obtain ⟨instr, member, arg, argMember, c, held, outside⟩ := forbidden
  have refused := allowed_eq_false_iff.mpr outside
  have kept : c ∈ escapeChar c := by
    rcases escapeChar_cases c with ⟨itself, _⟩ | ⟨allowed, _⟩
    · simp [itself]
    · rw [refused] at allowed
      cases allowed
  obtain ⟨mark, marked, before⟩ := argument_mark_mem member argMember
  have inText : c ∈ mark.before := by
    rw [before]
    exact List.mem_flatMap.mpr ⟨c, held, kept⟩
  have chunk : Xml.Chunk.text mark.before ∈ located.map Xml.Located.chunk := by
    rw [chunks]
    exact List.mem_append_left _ (List.mem_flatMap.mpr ⟨mark, marked, Xml.text_mem_chunks inText⟩)
  rw [read, Xml.read_forbidden chunk inText refused]
  rfl

end Framecode.Interchange
