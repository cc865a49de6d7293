import Framecode.Proofs.Interchange.Structure

/-! Arguments go by the numbers in the names of their elements, and not by the places of these
elements. Whatever elements an instruction has, as long as each could be an argument, it is read
exactly when their numbers are those from one to the arity of the opcode, each once. A number that
is left out, given twice or too high is never made up for by moving another argument. -/
namespace Framecode.Interchange

/-- Elements that each have the name of a numbered argument and hold an argument. -/
def Numbers : List Element → Numbered → Prop :=
  List.Forall₂ fun child entry => Lenient child.name entry.1 ∧ readArgument child = .ok entry.2

/-- The attributes of an element give an order and an opcode, and nothing else. -/
structure Headed (element : Element) (order : UInt32) (opcode : Opcode) : Prop where
  only : element.Only ["order", "opcode"]
  order : ∃ value, element.attribute? "order" = some value ∧
    Integer.Decimal (Text.trim value.toList) order.toNat
  opcode : ∃ value, element.attribute? "opcode" = some value ∧
    Text.sameWord opcode.mnemonic (Text.trimmed value) = true

/-- Nothing is wrong with an element of an instruction, as far as its attributes, its texts and
each of its children by itself are concerned. -/
structure Legible (element : Element) (order : UInt32) (opcode : Opcode) (entries : Numbered) :
    Prop where
  headed : Headed element order opcode
  blank : BlankTexts element.children
  numbers : Numbers (elementsOf element.children) entries

section

variable {element other : Element} {order order' : UInt32} {opcode opcode' : Opcode}
  {entries moved : Numbered} {elements others : List Element} {instr : Instruction}

private theorem decimal_unique {text : List Char} {number number' : Nat}
    (spelled : Integer.Decimal text number) (spelledToo : Integer.Decimal text number') :
    number = number' := by
  have found := Integer.natural_some_iff.mpr spelled
  rw [Integer.natural_some_iff.mpr spelledToo] at found
  exact (Option.some.inj found).symm

private theorem numbers_unique (numbers : Numbers elements entries)
    (numbersToo : Numbers elements moved) :
    entries = moved := by
  refine List.right_unique_forall₂' ?_ numbers numbersToo
  rintro child ⟨number, arg⟩ ⟨number', arg'⟩ ⟨⟨digits, named, spelled⟩, read⟩
    ⟨⟨digits', namedToo, spelledToo⟩, readToo⟩
  rw [named] at namedToo
  cases List.append_cancel_left namedToo
  cases decimal_unique spelled spelledToo
  rw [read] at readToo
  cases readToo
  rfl

/-- Elements in another order have the same numbers and arguments in that order. -/
theorem numbers_moved (numbers : Numbers elements entries) (same : others.Perm elements) :
    ∃ moved, Numbers others moved ∧ moved.Perm entries :=
  List.perm_comp_forall₂ same numbers

private theorem headed_unique (headed : Headed element order opcode)
    (headedToo : Headed element order' opcode') : order = order' ∧ opcode = opcode' := by
  obtain ⟨_, ⟨value, ordered, spelled⟩, ⟨text, coded, known⟩⟩ := headed
  obtain ⟨_, ⟨value', orderedToo, spelledToo⟩, ⟨text', codedToo, knownToo⟩⟩ := headedToo
  rw [ordered] at orderedToo
  cases orderedToo
  rw [coded] at codedToo
  cases codedToo
  rw [← Opcode.ofMnemonic_some_iff] at known knownToo
  rw [known] at knownToo
  exact ⟨UInt32.toNat_inj.mp (decimal_unique spelled spelledToo), Option.some.inj knownToo⟩

/-- An instruction is read from an element that is legible, and whose numbered arguments are the
arguments of the instruction. -/
theorem readInstruction_legible_iff : readInstruction element = .ok instr ↔
    ∃ entries, Legible element instr.order instr.opcode entries ∧
      entries.Perm (numberedArgs instr.args) ∧ instr.args.length = instr.opcode.arity := by
  rw [readInstruction_steps]
  simp only [checkAttributes_ok_iff, readOrder_some_iff, Opcode.ofMnemonic_some_iff,
    Element.elements, elementsAmong_ok_iff]
  constructor
  · rintro ⟨only, order, opcode, _, found, ⟨blank, rfl⟩, numbered, placed, count⟩
    have room : instr.args.length ≤ maxArguments := count ▸ arity_le_maxArguments instr.opcode
    obtain ⟨entries, all, same⟩ := (readArguments_inOrder_iff room).mp ⟨found, numbered, placed⟩
    exact ⟨entries, ⟨⟨only, order, opcode⟩, blank, all⟩, same, count⟩
  · rintro ⟨entries, ⟨⟨only, order, opcode⟩, blank, all⟩, same, count⟩
    have room : instr.args.length ≤ maxArguments := count ▸ arity_le_maxArguments instr.opcode
    obtain ⟨found, numbered, placed⟩ := (readArguments_inOrder_iff room).mpr ⟨entries, all, same⟩
    exact ⟨only, order, opcode, _, found, ⟨blank, rfl⟩, numbered, placed, count⟩

/-- Arguments whose numbers are those from one on, in any order, are some arguments with their
numbers. -/
theorem placed_of_numbers {count : Nat}
    (numbers : (entries.map Prod.fst).Perm (List.range' 1 count)) :
    ∃ args, entries.Perm (numberedArgs args) ∧ args.length = count := by
  have each : List.Forall₂ (fun number entry => number = Prod.fst entry)
      (entries.map Prod.fst) entries :=
    List.forall₂_map_left_iff.mpr (List.forall₂_same.mpr fun _ _ => rfl)
  obtain ⟨moved, counted, same⟩ := List.perm_comp_forall₂ numbers.symm each
  rw [← List.forall₂_map_right_iff, List.forall₂_eq_eq_eq] at counted
  have length : (moved.map Prod.snd).length = count := by
    rw [List.length_map, ← List.length_map (f := Prod.fst), ← counted, List.length_range']
  refine ⟨moved.map Prod.snd, same.symm.trans ?_, length⟩
  rw [numberedArgs, length, counted, List.zip_map', List.map_id']

/-- The elements of an instruction in another order are the same instruction. -/
theorem readInstruction_moved (read : readInstruction element = .ok instr)
    (attributes : other.attributes = element.attributes) (blank : BlankTexts other.children)
    (same : (elementsOf other.children).Perm (elementsOf element.children)) :
    readInstruction other = .ok instr := by
  obtain ⟨entries, ⟨⟨only, order, opcode⟩, _, numbers⟩, placed, count⟩ :=
    readInstruction_legible_iff.mp read
  obtain ⟨moved, numbersToo, swapped⟩ := numbers_moved numbers same
  refine readInstruction_legible_iff.mpr ⟨moved, ⟨⟨?_, ?_, ?_⟩, blank, numbersToo⟩,
    swapped.trans placed, count⟩
  · rwa [Element.Only, attributes]
  · rwa [Element.attribute?, attributes]
  · rwa [Element.attribute?, attributes]

end

/-- Arguments go by number. Let an element have the attributes of an instruction, no text that is
not blank, and any number of children that each have a number and hold an argument. It is read
exactly when the numbers are those from one to the arity of the opcode, in whatever order, and
then the argument at each index is the one with the number after it. When an element is read, any
other with the same attributes and the same children in another order is read as the same
instruction. -/
theorem arguments_go_by_number (element : Element) :
    (∀ order opcode entries, Legible element order opcode entries →
      ((∃ instr, readInstruction element = .ok instr) ↔
        (entries.map Prod.fst).Perm (List.range' 1 opcode.arity)) ∧
      ∀ instr, readInstruction element = .ok instr →
        instr.order = order ∧ instr.opcode = opcode ∧
        ∀ index arg, instr.args[index]? = some arg ↔ (index + 1, arg) ∈ entries) ∧
    ∀ instr other, readInstruction element = .ok instr →
      other.attributes = element.attributes → BlankTexts other.children →
      (elementsOf other.children).Perm (elementsOf element.children) →
      readInstruction other = .ok instr := by
  constructor
  · intro order opcode entries legible
    have known : ∀ instr, readInstruction element = .ok instr →
        (instr.order = order ∧ instr.opcode = opcode) ∧
          entries.Perm (numberedArgs instr.args) ∧ instr.args.length = opcode.arity := by
      intro instr read
      obtain ⟨found, legibleToo, placed, count⟩ := readInstruction_legible_iff.mp read
      have headed := headed_unique legibleToo.headed legible.headed
      cases numbers_unique legibleToo.numbers legible.numbers
      exact ⟨headed, placed, headed.2 ▸ count⟩
    refine ⟨⟨?_, fun numbers => ?_⟩, fun instr read => ?_⟩
    · rintro ⟨instr, read⟩
      obtain ⟨_, placed, count⟩ := known instr read
      rw [← count, ← numberedArgs_numbers]
      exact placed.map Prod.fst
    · obtain ⟨args, placed, count⟩ := placed_of_numbers numbers
      exact ⟨⟨order, opcode, args⟩,
        readInstruction_legible_iff.mpr ⟨entries, legible, placed, count⟩⟩
    · obtain ⟨⟨sameOrder, sameOpcode⟩, placed, _⟩ := known instr read
      refine ⟨sameOrder, sameOpcode, fun index arg => ?_⟩
      rw [placed.mem_iff, mem_numberedArgs, Nat.add_sub_cancel]
      exact (and_iff_right (Nat.le_add_left 1 index)).symm
  · intro instr other read attributes blank same
    exact readInstruction_moved read attributes blank same

/-- The element of a READ with its second argument first, and a zero in the name of the other. -/
def swapped : Element :=
  ⟨1, "instruction", [⟨⟨"", "order"⟩, "4"⟩, ⟨⟨"", "opcode"⟩, "read"⟩],
    [.element 1 ⟨"", "arg2"⟩ [⟨⟨"", "type"⟩, "type"⟩] [.text 1 " int "],
      .element 1 ⟨"", "arg01"⟩ [⟨⟨"", "type"⟩, "var"⟩] [.text 1 "GF@x"]]⟩

theorem swapped_goes_by_number :
    Legible swapped 4 .read [(2, ⟨.typeName, "int"⟩), (1, ⟨.var, "GF@x"⟩)] ∧
    ∃ instr, readInstruction swapped = .ok instr ∧ instr.args[0]? = some ⟨.var, "GF@x"⟩ ∧
      instr.args[1]? = some ⟨.typeName, "int"⟩ := by
  have legible : Legible swapped 4 .read [(2, ⟨.typeName, "int"⟩), (1, ⟨.var, "GF@x"⟩)] := by
    refine ⟨⟨?_, ⟨"4", rfl, ?_⟩, ⟨"read", rfl, ?_⟩⟩, ?_, .cons ⟨?_, ?_⟩ (.cons ⟨?_, ?_⟩ .nil)⟩
    · simp [Element.Only, swapped]
    · exact readOrder_some_iff.mp (by decide +kernel)
    · decide +kernel
    · simp [swapped]
    · exact (argumentNumber_some_iff.mp (by decide +kernel)).1
    · rfl
    · exact (argumentNumber_some_iff.mp (by decide +kernel)).1
    · rfl
  obtain ⟨exactly, placed⟩ := (arguments_go_by_number swapped).1 _ _ _ legible
  obtain ⟨instr, read⟩ := exactly.mpr (List.Perm.swap 1 2 [])
  obtain ⟨_, _, byNumber⟩ := placed instr read
  exact ⟨legible, instr, read, (byNumber 0 _).mpr (by simp), (byNumber 1 _).mpr (by simp)⟩

end Framecode.Interchange
