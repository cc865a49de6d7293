import Framecode.Proofs.Interchange.Structure
import Framecode.Proofs.Xml.Lines

/-! Program documents without line numbers. Only faults tell lines, so whether a document is a
program, and which one, can be seen from its tree with all lines left out. -/
namespace Framecode.Interchange

open Xml (Unfinished Node Reading)

/-! ## Elements without lines -/

/-- An element with all lines left out. -/
def Element.unlined (element : Element) : Element :=
  { element with line := 0, children := element.children.map Node.unlined }

private theorem ofNode_unlined (node : Node) :
    Element.ofNode? node.unlined = (Element.ofNode? node).map Element.unlined := by
  cases node <;> simp [Element.ofNode?, Element.unlined]

theorem elementsOf_unlined (nodes : List Node) :
    elementsOf (nodes.map Node.unlined) = (elementsOf nodes).map Element.unlined := by
  rw [elementsOf, elementsOf, List.filterMap_map, List.map_filterMap]
  exact List.filterMap_congr fun node _ => ofNode_unlined node

private theorem blankTexts_unlined {nodes : List Node} :
    BlankTexts (nodes.map Node.unlined) ↔ BlankTexts nodes := by
  induction nodes with
  | nil => simp
  | cons node rest ih => cases node <;> simp [ih]

private theorem leadingText_unlined (element : Element) :
    element.unlined.leadingText = element.leadingText := by
  obtain ⟨line, name, attributes, children⟩ := element
  cases children with
  | nil => rfl
  | cons first rest => cases first <;> simp [Element.leadingText, Element.unlined]

private theorem isArgument_unlined {element : Element} {arg : Argument} :
    IsArgument element.unlined arg ↔ IsArgument element arg := by
  have flat : elementsOf element.unlined.children = [] ↔ elementsOf element.children = [] := by
    rw [Element.unlined, elementsOf_unlined, List.map_eq_nil_iff]
  have text := leadingText_unlined element
  constructor
  · rintro ⟨only, kind, nested, spelled⟩
    exact ⟨only, kind, flat.mp nested, by rwa [text] at spelled⟩
  · rintro ⟨only, kind, nested, spelled⟩
    exact ⟨only, kind, flat.mpr nested, by rwa [text]⟩

private theorem isInstruction_unlined {fits : String → Nat → Prop} {element : Element}
    {instr : Instruction} :
    IsInstruction fits element.unlined instr ↔ IsInstruction fits element instr := by
  have args : ∀ entries : Numbered,
      List.Forall₂ (fun child entry => fits child.name entry.1 ∧ IsArgument child entry.2)
          (elementsOf element.unlined.children) entries ↔
        List.Forall₂ (fun child entry => fits child.name entry.1 ∧ IsArgument child entry.2)
          (elementsOf element.children) entries := by
    intro entries
    rw [Element.unlined, elementsOf_unlined, List.forall₂_map_left_iff]
    simp only [isArgument_unlined]
    rfl
  have blank : BlankTexts element.unlined.children ↔ BlankTexts element.children :=
    blankTexts_unlined
  constructor
  · rintro ⟨only, order, opcode, blanks, ⟨entries, all, same⟩, count⟩
    exact ⟨only, order, opcode, blank.mp blanks, ⟨entries, (args entries).mp all, same⟩, count⟩
  · rintro ⟨only, order, opcode, blanks, ⟨entries, all, same⟩, count⟩
    exact ⟨only, order, opcode, blank.mpr blanks, ⟨entries, (args entries).mpr all, same⟩, count⟩

private theorem isProgram_unlined {fits : String → Nat → Prop} {root : Element}
    {program : Program} :
    IsProgram fits root.unlined program ↔ IsProgram fits root program := by
  have all : List.Forall₂
        (fun child instr => child.name = "instruction" ∧ IsInstruction fits child instr)
        (elementsOf root.unlined.children) program.instructions ↔
      List.Forall₂
        (fun child instr => child.name = "instruction" ∧ IsInstruction fits child instr)
        (elementsOf root.children) program.instructions := by
    rw [Element.unlined, elementsOf_unlined, List.forall₂_map_left_iff]
    simp only [isInstruction_unlined]
    rfl
  have blank : BlankTexts root.unlined.children ↔ BlankTexts root.children := blankTexts_unlined
  constructor
  · rintro ⟨name, language, only, blanks, instructions⟩
    exact ⟨name, language, only, blank.mp blanks, all.mp instructions⟩
  · rintro ⟨name, language, only, blanks, instructions⟩
    exact ⟨name, language, only, blank.mpr blanks, all.mpr instructions⟩

/-! ## Unfinished elements -/

/-- An unfinished element as if it ended here. -/
def Element.ofOpen (element : Unfinished) : Element :=
  ⟨element.line, element.name.base, element.attributes, element.children.reverse⟩

/-- A document is a program exactly when its root has the structure of one, lines apart. -/
theorem read_ok_iff {text : String} {root : Unfinished} {program : Program}
    (found : (Xml.reading? text.toList).map Reading.unlined = some ⟨[], some root.node⟩) :
    read text = .ok program ↔ IsProgram Lenient (.ofOpen root) program := by
  obtain ⟨⟨path, held⟩, reading, same⟩ := Option.map_eq_some_iff.mp found
  obtain rfl : path = [] := List.map_eq_nil_iff.mp (congrArg Reading.path same)
  obtain ⟨node, rfl, unlined⟩ := Option.map_eq_some_iff.mp (congrArg Reading.root same)
  have formed : Xml.document? text = some node := by
    rw [Xml.document_eq_reading, reading]
    rfl
  obtain ⟨element, named, sound, whole⟩ := root_of_document formed
  have alike : element.unlined = .ofOpen root := by
    have renamed := ofNode_unlined node
    rw [named, unlined] at renamed
    exact (Option.some.inj renamed).symm
  rw [whole, readRoot_ok_iff sound, ← alike, isProgram_unlined]

theorem reading_of_read {text : String} {program : Program} (known : read text = .ok program) :
    ∃ node, (Xml.reading? text.toList).map Reading.unlined = some ⟨[], some node⟩ := by
  rw [read] at known
  cases formed : Xml.document? text with
  | none =>
    rw [formed] at known
    cases known
  | some node =>
    rw [Xml.document_eq_reading, Option.bind_eq_some_iff] at formed
    obtain ⟨⟨path, root⟩, reading, ended⟩ := formed
    rw [Option.ite_none_right_eq_some] at ended
    obtain ⟨closed, rfl⟩ := ended
    obtain rfl : path = [] := List.isEmpty_iff.mp closed
    exact ⟨node.unlined, by rw [reading]; rfl⟩

end Framecode.Interchange
