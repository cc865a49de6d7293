import Framecode.Interchange.Read
import Framecode.Proofs.Interchange.Document
import Framecode.Proofs.Names
import Framecode.Proofs.Text.Trimming
import Mathlib.Data.List.Forall2

/-! Programs from the nodes of their documents. An instruction is read back with its
order, its opcode and the kinds of its arguments, and with their texts trimmed, unless the
number of its arguments is wrong for the opcode. -/
namespace Framecode.Interchange

/-! ## Elements among nodes -/

private theorem elementsAmong_texts {content parent : String} {texts rest : List Xml.Node}
    (held : Xml.Texts content texts) (blank : Text.isBlankText content = true) :
    Element.elementsAmong parent (texts ++ rest) = Element.elementsAmong parent rest := by
  cases held with
  | empty _ => rfl
  | single line =>
    rw [List.singleton_append, Element.elementsAmong, if_pos blank]

private theorem elementsAmong_element {parent : String} {node : Xml.Node} {element : Element}
    {rest : List Xml.Node} (held : Element.ofNode? node = some element) :
    Element.elementsAmong parent (node :: rest) =
      (Element.elementsAmong parent rest).map (element :: ·) := by
  cases node with
  | element line name attributes children =>
    cases held
    rfl
  | text line content => cases held
  | gap => cases held

/-- The elements of a row are found in their order, one for each item. -/
theorem elementsAmong_row {α : Type} {blank last parent : String} {form : α → Xml.Node → Prop}
    {reads : α → Element → Prop} {items : List α} {nodes texts : List Xml.Node}
    (row : Xml.Row blank form items nodes) (ending : Xml.Texts last texts)
    (blankText : Text.isBlankText blank = true) (lastText : Text.isBlankText last = true)
    (each : ∀ item node, form item node →
      ∃ element, Element.ofNode? node = some element ∧ reads item element) :
    ∃ elements, Element.elementsAmong parent (nodes ++ texts) = .ok elements ∧
      List.Forall₂ reads items elements := by
  induction row with
  | nil =>
    refine ⟨[], ?_, .nil⟩
    have none := @elementsAmong_texts last parent texts [] ending lastText
    rw [List.append_nil] at none
    rw [List.nil_append, none]
    rfl
  | @cons item items before nodes node blanks formed _ ih =>
    obtain ⟨elements, found, all⟩ := ih
    obtain ⟨element, held, first⟩ := each item node formed
    refine ⟨element :: elements, ?_, .cons first all⟩
    rw [List.append_assoc, List.cons_append, elementsAmong_texts blanks blankText,
      elementsAmong_element held, found]
    rfl

/-! ## Arguments -/

/-- The argument that is read back: its text is trimmed, its line ends are normal. -/
def recoveredArgument (arg : Argument) : Argument := ⟨arg.kind, Text.trimmed (content arg.text)⟩

def recovered (instr : Instruction) : Instruction :=
  { instr with args := instr.args.map recoveredArgument }

/-- An element that is read as an argument with a number. -/
structure ArgumentElement (entry : Argument × Nat) (element : Element) : Prop where
  named : element.name = argumentName entry.2
  read : readArgument element = .ok (recoveredArgument entry.1)

private theorem argument_element {entry : Argument × Nat} {node : Xml.Node}
    (formed : ArgumentNode entry node) :
    ∃ element, Element.ofNode? node = some element ∧ ArgumentElement entry element := by
  obtain ⟨line, _, texts, rfl, rfl, texted⟩ := formed
  obtain ⟨arg, number⟩ := entry
  refine ⟨_, rfl, rfl, ?_⟩
  have kind : ArgKind.ofName? (Text.trimmed arg.kind.name) = some arg.kind := by
    rw [ArgKind.ofName_some_iff]
    cases arg.kind with
    | literal type => cases type <;> decide
    | var | label | typeName => decide
  cases texted with
  | empty nothing =>
    simp [readArgument, Element.checkAttributes, Element.attribute?, argumentAttributes, kind,
      Element.firstElement?, Element.leadingText, recoveredArgument, nothing]
  | single line =>
    simp [readArgument, Element.checkAttributes, Element.attribute?, argumentAttributes, kind,
      Element.firstElement?, Element.leadingText, recoveredArgument, Element.ofNode?]

private theorem argumentNumber_name (number : Nat) :
    argumentNumber? (argumentName number) =
      if 1 ≤ number ∧ number ≤ maxArguments then some number else none := by
  have digits : Text.after? ['a', 'r', 'g'] (argumentName number).toList =
      some (toString number).toList := by
    rw [Text.after?_eq_some_iff, argumentName, String.toList_append]
    rfl
  simp only [argumentNumber?, digits, Integer.natural_numeral, Option.bind_eq_bind, Option.bind_some]

private theorem lookup_fresh {found : Numbered} {number : Nat}
    (fresh : ∀ entry ∈ found, entry.1 < number) :
    found.lookup number = none := by
  rw [List.lookup_eq_none_iff]
  intro entry member
  have below := fresh entry member
  rw [bne_iff_ne]
  omega

private theorem fresh_cons {found : Numbered} {number : Nat}
    (fresh : ∀ entry ∈ found, entry.1 < number)
    (arg : Argument) : ∀ entry ∈ (number, arg) :: found, entry.1 < number + 1 := by
  intro entry member
  rcases List.mem_cons.mp member with rfl | earlier
  · exact Nat.lt_succ_self number
  · exact Nat.lt_succ_of_lt (fresh entry earlier)

/-- One more argument is read as long as its number is in range. -/
theorem readArguments_cons {entry : Argument × Nat} {element : Element} {rest : List Element}
    {found : Numbered} (formed : ArgumentElement entry element)
    (fresh : ∀ entry' ∈ found, entry'.1 < entry.2) (positive : 1 ≤ entry.2)
    (room : entry.2 ≤ maxArguments) :
    readArguments found (element :: rest) =
      readArguments ((entry.2, recoveredArgument entry.1) :: found) rest := by
  rw [readArguments, formed.named, argumentNumber_name, if_pos ⟨positive, room⟩]
  simp [lookup_fresh fresh, formed.read]

private theorem readArguments_numbered {args : List Argument} {elements : List Element}
    {found : Numbered}
    {start : Nat} (formed : List.Forall₂ ArgumentElement (args.zipIdx start) elements)
    (fresh : ∀ entry ∈ found, entry.1 < start) (positive : 1 ≤ start)
    (room : start + args.length ≤ maxArguments + 1) :
    readArguments found elements =
      .ok (((args.zipIdx start).map fun entry => (entry.2, recoveredArgument entry.1)).reverse ++
        found) := by
  induction args generalizing start found elements with
  | nil =>
    cases formed
    rfl
  | cons arg args ih =>
    rw [List.zipIdx_cons] at formed
    cases formed with
    | @cons _ element _ rest first others =>
      rw [List.length_cons] at room
      have below := fresh_cons fresh (recoveredArgument arg)
      have step := @readArguments_cons _ _ rest _ first fresh positive (by simp only; omega)
      rw [step, ih others below (by omega) (by omega)]
      simp

/-- An argument past the last number is an element that no instruction has. -/
theorem readArguments_overfull {args : List Argument} {elements : List Element} {found : Numbered}
    {start : Nat} (formed : List.Forall₂ ArgumentElement (args.zipIdx start) elements)
    (fresh : ∀ entry ∈ found, entry.1 < start) (positive : 1 ≤ start)
    (begun : start ≤ maxArguments + 1) (exceeds : maxArguments + 1 < start + args.length) :
    ∃ line problem, readArguments found elements = .error (.structural line problem) := by
  induction args generalizing start found elements with
  | nil =>
    rw [List.length_nil] at exceeds
    omega
  | cons arg args ih =>
    rw [List.zipIdx_cons] at formed
    cases formed with
    | @cons _ element _ rest first others =>
      by_cases room : start ≤ maxArguments
      · have below := fresh_cons fresh (recoveredArgument arg)
        rw [List.length_cons] at exceeds
        have step := @readArguments_cons _ _ rest _ first fresh positive room
        rw [step]
        exact ih others below (by omega) (by omega) (by omega)
      · refine ⟨element.line, .unexpectedElement element.name "instruction", ?_⟩
        rw [readArguments, first.named, argumentNumber_name, if_neg fun both => room both.2]
        rfl

private theorem inOrder_numbered {args : List Argument} (room : args.length ≤ maxArguments) :
    inOrder? ((args.zipIdx 1).map fun entry => (entry.2, recoveredArgument entry.1)).reverse =
      some (args.map recoveredArgument) := by
  match args, room with
  | [], _ => rfl
  | [_], _ => rfl
  | [_, _], _ => rfl
  | [_, _, _], _ => rfl

/-! ## Instructions -/

theorem arity_le_maxArguments (opcode : Opcode) : opcode.arity ≤ maxArguments := by
  cases opcode <;> decide

private theorem readOrder_numeral (order : UInt32) :
    readOrder? (toString order.toNat) = some order := by
  have unbroken : ∀ c ∈ (toString order.toNat).toList, Text.isBlank c = false := by
    intro c member
    have digit := Integer.numeral_digit member
    simp only [Text.isBlank, Text.inRanges, Text.blankRanges, List.any_cons, List.any_nil,
      Bool.or_false, Bool.or_eq_false_iff, Bool.and_eq_false_imp, decide_eq_true_eq,
      decide_eq_false_iff_not]
    omega
  rw [readOrder?, Text.trim_unbroken unbroken, Integer.natural_numeral]
  simp [order.toNat_lt]

/-- An element that is read as an instruction with the right number of arguments, or is a
fault of structure. -/
structure InstructionElement (instr : Instruction) (element : Element) : Prop where
  named : element.name = "instruction"
  read : instr.args.length = instr.opcode.arity → readInstruction element = .ok (recovered instr)
  refused : instr.args.length ≠ instr.opcode.arity →
    ∃ line problem, readInstruction element = .error (.structural line problem)

/-- What is left of reading an instruction once its attributes are read. -/
theorem readInstruction_arguments {element : Element} {instr : Instruction}
    {elements : List Element} (headed : element.attributes = instructionAttributes instr)
    (inside : element.elements = .ok elements) :
    readInstruction element =
      (readArguments [] elements).bind fun numbered =>
        match inOrder? numbered with
        | none => .error (element.fault (.numbering instr.opcode))
        | some args =>
          if args.length = instr.opcode.arity then .ok ⟨instr.order, instr.opcode, args⟩
          else .error (element.fault (.argumentCount instr.opcode args.length)) := by
  have checked : element.checkAttributes ["order", "opcode"] = .ok () := by
    rw [Element.checkAttributes, headed]
    rfl
  have orderText : element.attribute? "order" = some (toString instr.order.toNat) := by
    rw [Element.attribute?, headed]
    rfl
  have opcodeText : element.attribute? "opcode" = some instr.opcode.mnemonic := by
    rw [Element.attribute?, headed]
    rfl
  have opcode : Opcode.ofMnemonic? (Text.trimmed instr.opcode.mnemonic) = some instr.opcode := by
    rw [Opcode.ofMnemonic_some_iff]
    cases instr.opcode <;> decide
  simp only [readInstruction, checked, orderText, readOrder_numeral, opcodeText, opcode, inside]
  refine congrArg (readArguments [] elements).bind (funext fun numbered => ?_)
  cases inOrder? numbered with
  | none => rfl
  | some args => rfl

private theorem readInstruction_counted {element : Element} {instr : Instruction}
    {elements : List Element}
    (headed : element.attributes = instructionAttributes instr)
    (inside : element.elements = .ok elements)
    (all : List.Forall₂ ArgumentElement (instr.args.zipIdx 1) elements)
    (room : instr.args.length ≤ maxArguments) :
    readInstruction element =
      if instr.args.length = instr.opcode.arity then .ok (recovered instr)
      else .error (element.fault (.argumentCount instr.opcode instr.args.length)) := by
  have numbered := readArguments_numbered all (by simp : ∀ entry ∈ ([] : Numbered), entry.1 < 1)
    (Nat.le_refl 1) (by omega)
  rw [readInstruction_arguments headed inside, numbered, List.append_nil, Except.bind,
    inOrder_numbered room]
  simp [recovered]

private theorem instruction_element {instr : Instruction} {node : Xml.Node}
    (formed : InstructionNode instr node) :
    ∃ element, Element.ofNode? node = some element ∧ InstructionElement instr element := by
  obtain ⟨line, children, texts, rfl, row, texted⟩ := formed
  obtain ⟨elements, found, all⟩ := @elementsAmong_row _ _ _ "instruction" _ _ _ _ _ row texted
    (by decide) (by decide) fun entry node formed => argument_element formed
  obtain ⟨element, whole⟩ : ∃ element : Element,
      element = ⟨line, "instruction", instructionAttributes instr, children ++ texts⟩ := ⟨_, rfl⟩
  have headed : element.attributes = instructionAttributes instr := by rw [whole]
  have inside : element.elements = .ok elements := by
    rw [whole]
    exact found
  refine ⟨element, by rw [whole]; rfl, by rw [whole], fun counted => ?_, fun miscounted => ?_⟩
  · have room : instr.args.length ≤ maxArguments := counted ▸ arity_le_maxArguments instr.opcode
    rw [readInstruction_counted headed inside all room, if_pos counted]
  · by_cases room : instr.args.length ≤ maxArguments
    · refine ⟨element.line, .argumentCount instr.opcode instr.args.length, ?_⟩
      rw [readInstruction_counted headed inside all room, if_neg miscounted]
      rfl
    · obtain ⟨line', problem, refused⟩ := readArguments_overfull all
        (by simp : ∀ entry ∈ ([] : Numbered), entry.1 < 1) (Nat.le_refl 1) (by decide) (by omega)
      refine ⟨line', problem, ?_⟩
      rw [readInstruction_arguments headed inside, refused]
      rfl

/-! ## Programs -/

/-- Whether some instruction has a number of arguments that is wrong for its opcode. -/
def Miscounted (instructions : List Instruction) : Prop :=
  ∃ instr ∈ instructions, instr.args.length ≠ instr.opcode.arity

theorem readInstructions_recovered {instructions : List Instruction} {elements : List Element}
    (formed : List.Forall₂ InstructionElement instructions elements)
    (counted : ¬Miscounted instructions) :
    readInstructions elements = .ok (instructions.map recovered) := by
  induction formed with
  | nil => rfl
  | @cons instr element _ _ first _ ih =>
    have firstCounted : instr.args.length = instr.opcode.arity := by
      by_contra miscounted
      exact counted ⟨instr, List.mem_cons_self, miscounted⟩
    have rest := ih fun miscounted => by
      obtain ⟨other, member, wrong⟩ := miscounted
      exact counted ⟨other, List.mem_cons_of_mem _ member, wrong⟩
    rw [readInstructions, if_pos first.named, first.read firstCounted, rest]
    rfl

theorem readInstructions_refused {instructions : List Instruction} {elements : List Element}
    (formed : List.Forall₂ InstructionElement instructions elements)
    (miscounted : Miscounted instructions) :
    ∃ line problem, readInstructions elements = .error (.structural line problem) := by
  obtain ⟨wrong, member, differs⟩ := miscounted
  induction formed with
  | nil => cases member
  | @cons instr element _ elements first _ ih =>
    rw [readInstructions, if_pos first.named]
    by_cases counted : instr.args.length = instr.opcode.arity
    · have later : wrong ≠ instr := by
        rintro rfl
        exact differs counted
      obtain ⟨line, problem, refused⟩ := ih ((List.mem_cons.mp member).resolve_left later)
      exact ⟨line, problem, by rw [first.read counted, refused]; rfl⟩
    · obtain ⟨line, problem, refused⟩ := first.refused counted
      exact ⟨line, problem, by rw [refused]⟩

theorem program_element {instructions : List Instruction} {node : Xml.Node}
    (formed : ProgramNode instructions node) :
    ∃ root elements, Element.ofNode? node = some root ∧
      List.Forall₂ InstructionElement instructions elements ∧
      readRoot root = (readInstructions elements).map Program.mk := by
  obtain ⟨line, children, texts, rfl, row, texted⟩ := formed
  obtain ⟨elements, found, all⟩ := @elementsAmong_row _ _ _ "program" _ _ _ _ _ row texted
    (by decide) (by decide) fun instr node formed => instruction_element formed
  obtain ⟨root, whole⟩ : ∃ root : Element,
      root = ⟨line, "program", programAttributes, children ++ texts⟩ := ⟨_, rfl⟩
  have checked : root.checkAttributes ["language", "name", "description"] = .ok () := by
    rw [whole]
    rfl
  have language : root.attribute? "language" = some "IPPcode24" := by
    rw [whole]
    rfl
  have named : root.name = "program" := by rw [whole]
  have inside : root.elements = .ok elements := by
    rw [whole]
    exact found
  refine ⟨root, elements, by rw [whole]; rfl, all, ?_⟩
  simp only [readRoot, named, language, checked, inside, ne_eq, not_true_eq_false, if_false]
  change (readInstructions elements).bind (fun instructions => .ok (Program.mk instructions)) = _
  cases readInstructions elements with
  | error error => rfl
  | ok instructions => rfl

end Framecode.Interchange
