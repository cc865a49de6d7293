import Framecode.Proofs.Interchange.Structure

/-! Which documents are programs. A document whose root does not have the structure of a
program is refused for that. The structure of the documents that are written for programs is
a narrower one: there the number of an argument is spelled plainly, and leading zeros are read
all the same. -/
namespace Framecode.Interchange

/-! ## Refused documents -/

/-- A result that does not call the document malformed, whatever else it says. -/
def Structural {α : Type} (result : Except Error α) : Prop := result ≠ .error .malformed

private theorem structural_error_iff {α : Type} {error : Error} :
    Structural (.error error : Except Error α) ↔ error ≠ .malformed := by
  simp [Structural]

private theorem structural_bind {α β : Type} {first : Except Error α} {second : α → Except Error β}
    (before : Structural first) (after : ∀ value, Structural (second value)) :
    Structural (first >>= second) := by
  cases first with
  | error error => exact structural_error_iff.mpr (structural_error_iff.mp before)
  | ok value => exact after value

private theorem checkAttributes_structural (element : Element) (names : List String) :
    Structural (element.checkAttributes names) := by
  rw [Element.checkAttributes]
  split
  · rintro ⟨⟩
  · rintro ⟨⟩

private theorem elementsAmong_structural (parent : String) (nodes : List Xml.Node) :
    Structural (Element.elementsAmong parent nodes) := by
  induction nodes with
  | nil => rintro ⟨⟩
  | cons node rest ih =>
    cases node with
    | gap => exact ih
    | text line content =>
      rw [Element.elementsAmong]
      split
      · exact ih
      · rintro ⟨⟩
    | element line name attributes children =>
      rw [Element.elementsAmong]
      cases among : Element.elementsAmong parent rest with
      | error error =>
        rw [among] at ih
        exact ih
      | ok elements => rintro ⟨⟩

private theorem readArgument_structural (element : Element) :
    Structural (readArgument element) := by
  refine structural_bind (checkAttributes_structural element _) fun _ => ?_
  split
  · rintro ⟨⟩
  · split
    · rintro ⟨⟩
    · split
      · rintro ⟨⟩
      · rintro ⟨⟩

private theorem readArguments_structural (found : Numbered) (elements : List Element) :
    Structural (readArguments found elements) := by
  induction elements generalizing found with
  | nil => rintro ⟨⟩
  | cons element rest ih =>
    rw [readArguments]
    split
    · rintro ⟨⟩
    · split
      · rintro ⟨⟩
      · have first := readArgument_structural element
        split
        · rename_i refused
          rw [refused] at first
          exact structural_error_iff.mpr (structural_error_iff.mp first)
        · exact ih _

private theorem readInstruction_structural (element : Element) :
    Structural (readInstruction element) := by
  refine structural_bind (checkAttributes_structural element _) fun _ => ?_
  split
  · split
    · split
      · split
        · refine structural_bind (elementsAmong_structural _ _) fun children =>
            structural_bind (readArguments_structural [] children) fun found => ?_
          split
          · split
            · rintro ⟨⟩
            · rintro ⟨⟩
          · rintro ⟨⟩
        · rintro ⟨⟩
      · rintro ⟨⟩
    · rintro ⟨⟩
  · rintro ⟨⟩

private theorem readInstructions_structural (elements : List Element) :
    Structural (readInstructions elements) := by
  induction elements with
  | nil => rintro ⟨⟩
  | cons element rest ih =>
    rw [readInstructions]
    split
    · have first := readInstruction_structural element
      split
      · rename_i refused
        rw [refused] at first
        exact structural_error_iff.mpr (structural_error_iff.mp first)
      · cases others : readInstructions rest with
        | error error =>
          rw [others] at ih
          exact ih
        | ok instructions => rintro ⟨⟩
    · rintro ⟨⟩

private theorem readRoot_structural (root : Element) : Structural (readRoot root) := by
  have inside : Structural (do
      root.checkAttributes ["language", "name", "description"]
      let children ← root.elements
      let instructions ← readInstructions children
      return (⟨instructions⟩ : Program)) := by
    refine structural_bind (checkAttributes_structural root _) fun _ =>
      structural_bind (elementsAmong_structural _ _) fun children =>
        structural_bind (readInstructions_structural children) fun instructions => ?_
    rintro ⟨⟩
  rw [readRoot]
  split
  · rintro ⟨⟩
  · split
    · rintro ⟨⟩
    · exact inside

/-! ## Plain numbers -/

/-- Every argument has a name as documents of programs have it. -/
def PlainlyNumbered (root : Element) : Prop :=
  ∀ instruction ∈ elementsOf root.children, ∀ argument ∈ elementsOf instruction.children,
    ∃ number, argument.name = argumentName number

private theorem lenient_name_iff {number other : Nat} :
    Lenient (argumentName number) other ↔ number = other := by
  have spelled : (argumentName number).toList = ['a', 'r', 'g'] ++ (toString number).toList := by
    rw [argumentName, String.toList_append]
    rfl
  simp only [Lenient, spelled, List.append_cancel_left_eq, exists_eq_left',
    ← Integer.natural_some_iff, Integer.natural_numeral, Option.some.injEq]

/-- An instruction has the structure of a document exactly when it can be read and the names
of its arguments are spelled plainly. -/
theorem documented_instruction_iff {element : Element} {instr : Instruction} :
    IsInstruction Documented element instr ↔ IsInstruction Lenient element instr ∧
      ∀ argument ∈ elementsOf element.children, ∃ number, argument.name = argumentName number := by
  constructor
  · rintro ⟨only, order, opcode, blank, ⟨entries, all, same⟩, count⟩
    have lenient : List.Forall₂ (fun child entry => Lenient child.name entry.1 ∧
        IsArgument child entry.2) (elementsOf element.children) entries :=
      all.imp fun child entry both => ⟨both.1 ▸ lenient_name_iff.mpr rfl, both.2⟩
    have plain : List.Forall₂ (fun child entry => (∃ number, child.name = argumentName number) ∧
        IsArgument child entry.2) (elementsOf element.children) entries :=
      all.imp fun child entry both => ⟨⟨entry.1, both.1⟩, both.2⟩
    exact ⟨⟨only, order, opcode, blank, ⟨entries, lenient, same⟩, count⟩,
      ((List.forall₂_and_left _ _).mp plain).1⟩
  · rintro ⟨⟨only, order, opcode, blank, ⟨entries, all, same⟩, count⟩, plain⟩
    refine ⟨only, order, opcode, blank, ⟨entries, ?_, same⟩, count⟩
    refine forall₂_imp_of_mem all fun child member entry _ both => ⟨?_, both.2⟩
    obtain ⟨number, named⟩ := plain child member
    rw [named, lenient_name_iff] at both
    rw [Documented, named, both.1]

private theorem documented_program_iff {root : Element} {program : Program} :
    IsProgram Documented root program ↔
      IsProgram Lenient root program ∧ PlainlyNumbered root := by
  constructor
  · rintro ⟨name, language, only, blank, all⟩
    have both : List.Forall₂ (fun child instr =>
        (∀ argument ∈ elementsOf child.children, ∃ number, argument.name = argumentName number) ∧
        child.name = "instruction" ∧ IsInstruction Lenient child instr)
        (elementsOf root.children) program.instructions :=
      all.imp fun child instr held =>
        have split := documented_instruction_iff.mp held.2
        ⟨split.2, held.1, split.1⟩
    obtain ⟨plain, lenient⟩ := (List.forall₂_and_left _ _).mp both
    exact ⟨⟨name, language, only, blank, lenient⟩, plain⟩
  · rintro ⟨⟨name, language, only, blank, all⟩, plain⟩
    refine ⟨name, language, only, blank, forall₂_imp_of_mem all fun child member instr _ held => ?_⟩
    exact ⟨held.1, documented_instruction_iff.mpr ⟨held.2, plain child member⟩⟩

/-- A well-formed document is read as a program exactly when its root has the structure of
one, where the number in the name of an argument may be spelled with leading zeros. The
programs in the structure of written documents are the ones that are read from plainly
numbered arguments. Any other document is refused for its structure. -/
theorem document_structure {text : String} {node : Xml.Node}
    (formed : Xml.document? text = some node) :
    ∃ root : Element, Element.ofNode? node = some root ∧
      (∀ program, read text = .ok program ↔ IsProgram Lenient root program) ∧
      (∀ program, IsProgram Documented root program ↔
        read text = .ok program ∧ PlainlyNumbered root) ∧
      ∀ error, read text = .error error →
        ∃ line problem, error = .structural line problem ∧ error.exitCode = 32 := by
  obtain ⟨root, held, sound, whole⟩ := root_of_document formed
  refine ⟨root, held, ?_, ?_, ?_⟩
  · intro program
    rw [whole, readRoot_ok_iff sound]
  · intro program
    rw [whole, readRoot_ok_iff sound, documented_program_iff]
  · intro error refused
    rw [whole] at refused
    cases error with
    | malformed => exact absurd refused (readRoot_structural root)
    | structural line problem => exact ⟨line, problem, rfl, rfl⟩

/-- A document whose argument is numbered with a leading zero. -/
def zeroNumbered : String :=
  "<program language=\"IPPcode24\"><instruction order=\"1\" opcode=\"EXIT\">" ++
    "<arg01 type=\"nil\"/></instruction></program>"

/-- The program that is read from it. -/
def zeroNumberedProgram : Program := ⟨[⟨1, .exit, [⟨.literal .nil, ""⟩]⟩]⟩

/-- The names of all arguments in a program element. -/
def argumentNames (root : Element) : List String :=
  (elementsOf root.children).flatMap fun child => (elementsOf child.children).map Element.name

private theorem zeroNumbered_read : read zeroNumbered = .ok zeroNumberedProgram := by decide +kernel

private theorem zeroNumbered_names :
    ((Xml.document? zeroNumbered).bind Element.ofNode?).map argumentNames = some ["arg01"] := by
  decide +kernel

/-- No plain number is spelled with a leading zero. -/
theorem not_plainly_of_zero {root : Element} (named : argumentNames root = ["arg01"]) :
    ¬PlainlyNumbered root := by
  intro plain
  have member : "arg01" ∈ argumentNames root := by rw [named]; exact List.mem_cons_self
  simp only [argumentNames, List.mem_flatMap, List.mem_map] at member
  obtain ⟨child, inside, argument, held, spelled⟩ := member
  obtain ⟨number, same⟩ := plain child inside argument held
  have lenient : Lenient "arg01" 1 := ⟨['0', '1'], rfl, ['0', '1'], .inl rfl, by simp, by simp, rfl⟩
  rw [← spelled, same, lenient_name_iff] at lenient
  rw [same, lenient] at spelled
  exact absurd spelled (by decide)

theorem zeroNumbered_structure :
    ∃ node root, Xml.document? zeroNumbered = some node ∧ Element.ofNode? node = some root ∧
      read zeroNumbered = .ok zeroNumberedProgram ∧ IsProgram Lenient root zeroNumberedProgram ∧
      ¬IsProgram Documented root zeroNumberedProgram := by
  obtain ⟨root, found, named⟩ := Option.map_eq_some_iff.mp zeroNumbered_names
  obtain ⟨node, formed, held⟩ := Option.bind_eq_some_iff.mp found
  obtain ⟨_, again, accepts, documented, _⟩ := document_structure formed
  cases held.symm.trans again
  refine ⟨node, root, formed, held, zeroNumbered_read, (accepts _).mp zeroNumbered_read, ?_⟩
  exact fun plain => not_plainly_of_zero named ((documented _).mp plain).2

theorem zeroNumbered_accepted :
    ∃ node root, Xml.document? zeroNumbered = some node ∧ Element.ofNode? node = some root ∧
      (∃ program, read zeroNumbered = .ok program) ∧
      ¬∃ program, IsProgram Documented root program := by
  obtain ⟨root, found, named⟩ := Option.map_eq_some_iff.mp zeroNumbered_names
  obtain ⟨node, formed, held⟩ := Option.bind_eq_some_iff.mp found
  refine ⟨node, root, formed, held, ⟨_, zeroNumbered_read⟩, ?_⟩
  rintro ⟨program, documented⟩
  exact not_plainly_of_zero named (documented_program_iff.mp documented).2

end Framecode.Interchange
