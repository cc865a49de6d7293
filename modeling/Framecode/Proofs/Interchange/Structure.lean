import Framecode.Proofs.Interchange.Reading
import Framecode.Proofs.Results
import Framecode.Proofs.Tables
import Framecode.Proofs.Xml.Moves
import Mathlib.Data.List.Perm.Subperm

/-! The structure of program documents, said as a grammar of elements and without the steps
of reading. A document is read as a program exactly when the root has this structure. The
grammar leaves open how the number of an argument is spelled: documents of programs have
`arg1`, `arg2` and `arg3`, but reading takes any decimal spelling of the number. -/
namespace Framecode.Interchange

/-! ## The grammar -/

/-- The elements among nodes, in order. -/
def elementsOf (nodes : List Xml.Node) : List Element := nodes.filterMap Element.ofNode?

/-- Every text among nodes is blank. -/
def BlankTexts (nodes : List Xml.Node) : Prop :=
  ∀ line content, .text line content ∈ nodes → Text.isBlankText content = true

namespace Element

/-- The attributes of an element have base names among the given ones. -/
def Only (element : Element) (names : List String) : Prop :=
  ∀ attr ∈ element.attributes, attr.name.base ∈ names

/-- An element has an attribute without a qualifier. -/
def Has (element : Element) (name value : String) : Prop :=
  ⟨⟨"", name⟩, value⟩ ∈ element.attributes

end Element

/-- An element holds an argument. -/
structure IsArgument (element : Element) (arg : Argument) : Prop where
  only : element.Only ["type"]
  kind : ∃ value, element.Has "type" value ∧ Text.trimmed value = arg.kind.name
  flat : elementsOf element.children = []
  text : arg.text = Text.trimmed element.leadingText

/-- Arguments with their numbers, from one on. -/
def numberedArgs (args : List Argument) : Numbered := (List.range' 1 args.length).zip args

/-- An element holds an instruction. Its arguments may stand in any order, each in an element
whose name fits its number. -/
structure IsInstruction (fits : String → Nat → Prop) (element : Element) (instr : Instruction) :
    Prop where
  only : element.Only ["order", "opcode"]
  order : ∃ value, element.Has "order" value ∧
    Integer.Decimal (Text.trim value.toList) instr.order.toNat
  opcode : ∃ value, element.Has "opcode" value ∧
    Text.sameWord instr.opcode.mnemonic (Text.trimmed value) = true
  blank : BlankTexts element.children
  args : ∃ entries : Numbered,
    List.Forall₂ (fun child entry => fits child.name entry.1 ∧ IsArgument child entry.2)
      (elementsOf element.children) entries ∧
    entries.Perm (numberedArgs instr.args)
  count : instr.args.length = instr.opcode.arity

/-- An element holds a program. -/
structure IsProgram (fits : String → Nat → Prop) (root : Element) (program : Program) : Prop where
  name : root.name = "program"
  language : root.Has "language" "IPPcode24"
  only : root.Only ["language", "name", "description"]
  blank : BlankTexts root.children
  instructions : List.Forall₂
    (fun child instr => child.name = "instruction" ∧ IsInstruction fits child instr)
    (elementsOf root.children) program.instructions

/-- The names that documents of programs have for arguments. -/
def Documented (name : String) (number : Nat) : Prop := name = argumentName number

/-- The names that are read as names of arguments: the number may have leading zeros. -/
def Lenient (name : String) (number : Nat) : Prop :=
  ∃ digits, name.toList = ['a', 'r', 'g'] ++ digits ∧ Integer.Decimal digits number

/-! ## Attributes and children -/

/-- An element of a document that is well formed. -/
structure Element.Sound (element : Element) : Prop where
  distinct : Xml.DistinctNames element.attributes
  inside : ∀ child ∈ element.children, child.Sound

private theorem sound_of_mem {nodes : List Xml.Node} {element : Element}
    (sound : ∀ node ∈ nodes, node.Sound) (member : element ∈ elementsOf nodes) : element.Sound := by
  obtain ⟨node, held, named⟩ := List.mem_filterMap.mp member
  cases sound node held with
  | element distinct inside =>
    cases named
    exact ⟨distinct, inside⟩
  | text => cases named
  | gap => cases named

theorem checkAttributes_ok_iff {element : Element} {names : List String} :
    element.checkAttributes names = .ok () ↔ element.Only names := by
  rw [Element.checkAttributes]
  cases found : element.attributes.find? fun attr => !names.contains attr.name.base with
  | none =>
    simp only [Element.Only, true_iff]
    intro attr member
    simpa using List.find?_eq_none.mp found attr member
  | some attr =>
    simp only [reduceCtorEq, false_iff]
    intro only
    have outside := List.find?_some found
    simp [only attr (List.mem_of_find?_eq_some found)] at outside

/-- With distinct attributes, the value of an attribute is the one it has. -/
theorem attribute_some_iff {element : Element} {name value : String}
    (distinct : Xml.DistinctNames element.attributes) :
    element.attribute? name = some value ↔ element.Has name value := by
  rw [Element.attribute?, Option.map_eq_some_iff]
  constructor
  · rintro ⟨⟨named, held⟩, found, rfl⟩
    have same : named = ⟨"", name⟩ := by simpa using List.find?_some found
    rw [same] at found
    exact List.mem_of_find?_eq_some found
  · intro has
    cases found : element.attributes.find? (·.name == ⟨"", name⟩) with
    | none =>
      have missed := List.find?_eq_none.mp found _ has
      simp at missed
    | some attr =>
      have same : attr.name = ⟨"", name⟩ := by simpa using List.find?_some found
      refine ⟨attr, rfl, ?_⟩
      rw [List.inj_on_of_nodup_map distinct (List.mem_of_find?_eq_some found) has same]

@[simp] theorem elementsOf_nil : elementsOf [] = [] := rfl

@[simp] theorem elementsOf_gap (rest : List Xml.Node) :
    elementsOf (.gap :: rest) = elementsOf rest := rfl

@[simp] theorem elementsOf_text (line : Nat) (content : String) (rest : List Xml.Node) :
    elementsOf (.text line content :: rest) = elementsOf rest := rfl

@[simp] theorem elementsOf_element (line : Nat) (name : Xml.Name) (attributes : List Xml.Attribute)
    (children rest : List Xml.Node) :
    elementsOf (.element line name attributes children :: rest) =
      ⟨line, name.base, attributes, children⟩ :: elementsOf rest := rfl

@[simp] theorem elementsOf_append (first second : List Xml.Node) :
    elementsOf (first ++ second) = elementsOf first ++ elementsOf second :=
  List.filterMap_append

@[simp] theorem blankTexts_nil : BlankTexts [] := by simp [BlankTexts]

@[simp] theorem blankTexts_gap {rest : List Xml.Node} :
    BlankTexts (.gap :: rest) ↔ BlankTexts rest := by simp [BlankTexts]

@[simp] theorem blankTexts_text {line : Nat} {content : String} {rest : List Xml.Node} :
    BlankTexts (.text line content :: rest) ↔
      Text.isBlankText content = true ∧ BlankTexts rest := by
  simp [BlankTexts, or_imp, forall_and]

@[simp] theorem blankTexts_element {line : Nat} {name : Xml.Name} {attributes : List Xml.Attribute}
    {children rest : List Xml.Node} :
    BlankTexts (.element line name attributes children :: rest) ↔ BlankTexts rest := by
  simp [BlankTexts]

@[simp] theorem blankTexts_append {first second : List Xml.Node} :
    BlankTexts (first ++ second) ↔ BlankTexts first ∧ BlankTexts second := by
  simp [BlankTexts, or_imp, forall_and]

theorem elementsAmong_ok_iff {parent : String} {nodes : List Xml.Node} {elements : List Element} :
    Element.elementsAmong parent nodes = .ok elements ↔
      BlankTexts nodes ∧ elementsOf nodes = elements := by
  induction nodes generalizing elements with
  | nil => simp [Element.elementsAmong]
  | cons node rest ih =>
    cases node with
    | gap => simp [Element.elementsAmong, ih]
    | text line content =>
      rw [Element.elementsAmong]
      split
      · rename_i blank
        simp [ih, blank]
      · rename_i stray
        simp [stray]
    | element line name attributes children =>
      simp only [Element.elementsAmong, blankTexts_element, elementsOf_element]
      cases among : Element.elementsAmong parent rest with
      | error error =>
        simp only [Except.map, reduceCtorEq, false_iff]
        rintro ⟨blank, _⟩
        rw [ih.mpr ⟨blank, rfl⟩] at among
        cases among
      | ok others =>
        obtain ⟨blank, same⟩ := ih.mp among
        simp [Except.map, blank, same]

private theorem firstElement_none_iff {element : Element} :
    element.firstElement? = none ↔ elementsOf element.children = [] := by
  rw [Element.firstElement?, List.findSome?_eq_none_iff, elementsOf, List.filterMap_eq_nil_iff]

/-! ## Arguments -/

private theorem readArgument_ok_iff {element : Element} {arg : Argument}
    (distinct : Xml.DistinctNames element.attributes) :
    readArgument element = .ok arg ↔ IsArgument element arg := by
  rw [readArgument, bind_ok_iff]
  constructor
  · rintro ⟨⟨⟩, checked, read⟩
    cases typed : element.attribute? "type" with
    | none => simp [typed, throw, throwThe, MonadExceptOf.throw] at read
    | some value =>
      simp only [typed] at read
      cases named : ArgKind.ofName? (Text.trimmed value) with
      | none => simp [named, throw, throwThe, MonadExceptOf.throw] at read
      | some kind =>
        simp only [named] at read
        cases nested : element.firstElement? with
        | some child => simp [nested, throw, throwThe, MonadExceptOf.throw] at read
        | none =>
          simp only [nested] at read
          cases read
          exact ⟨checkAttributes_ok_iff.mp checked,
            ⟨value, (attribute_some_iff distinct).mp typed, (ArgKind.ofName_some_iff.mp named).symm⟩,
            firstElement_none_iff.mp nested, rfl⟩
  · rintro ⟨only, ⟨value, has, named⟩, flat, text⟩
    refine ⟨(), checkAttributes_ok_iff.mpr only, ?_⟩
    obtain ⟨kind, written⟩ := arg
    simp only at named text
    rw [(attribute_some_iff distinct).mpr has]
    simp only [ArgKind.ofName_some_iff.mpr named.symm, firstElement_none_iff.mpr flat, text]
    rfl

theorem argumentNumber_some_iff {name : String} {number : Nat} :
    argumentNumber? name = some number ↔
      Lenient name number ∧ 1 ≤ number ∧ number ≤ maxArguments := by
  simp only [argumentNumber?, Option.bind_eq_bind, Option.bind_eq_some_iff,
    Option.ite_none_right_eq_some, Text.after?_eq_some_iff, Integer.natural_some_iff, Lenient]
  constructor
  · rintro ⟨digits, spelled, _, denoted, bounds, same⟩
    cases same
    exact ⟨⟨digits, spelled, denoted⟩, bounds⟩
  · rintro ⟨⟨digits, spelled, denoted⟩, bounds⟩
    exact ⟨digits, spelled, number, denoted, bounds, rfl⟩

/-- Argument elements are read when each can be read by itself and no two have one number. -/
theorem readArguments_ok_iff {found result : Numbered} {elements : List Element}
    (distinct : (found.map Prod.fst).Nodup) :
    readArguments found elements = .ok result ↔
      ∃ entries, List.Forall₂ (fun child entry => argumentNumber? child.name = some entry.1 ∧
          readArgument child = .ok entry.2) elements entries ∧
        entries.reverse ++ found = result ∧ (result.map Prod.fst).Nodup := by
  induction elements generalizing found with
  | nil =>
    rw [readArguments, Except.ok.injEq]
    constructor
    · rintro rfl
      exact ⟨[], .nil, rfl, distinct⟩
    · rintro ⟨_, ⟨⟩, same, _⟩
      exact same
  | cons element rest ih =>
    rw [readArguments]
    -- Whatever entry the first element gives, it goes in front of those found so far.
    constructor
    · intro read
      cases numbered : argumentNumber? element.name with
      | none => simp [numbered] at read
      | some number =>
        simp only [numbered] at read
        split at read
        · cases read
        · rename_i fresh
          rw [lookup_isSome_iff] at fresh
          cases readFirst : readArgument element with
          | error error => simp [readFirst] at read
          | ok arg =>
            simp only [readFirst] at read
            obtain ⟨entries, all, same, nodup⟩ :=
              (@ih ((number, arg) :: found) (List.nodup_cons.mpr ⟨fresh, distinct⟩)).mp read
            exact ⟨(number, arg) :: entries, .cons ⟨numbered, readFirst⟩ all, by simpa using same,
              nodup⟩
    · rintro ⟨_, ⟨⟩ | ⟨⟨numbered, readFirst⟩, all⟩, same, nodup⟩
      rename_i entry entries
      obtain ⟨number, arg⟩ := entry
      have moved : entries.reverse ++ (number, arg) :: found = result := by simpa using same
      have front : (((number, arg) :: found).map Prod.fst).Nodup := by
        rw [← moved, List.map_append] at nodup
        exact (List.nodup_append.mp nodup).2.1
      have fresh : ¬(found.lookup number).isSome = true := by
        rw [lookup_isSome_iff]
        exact (List.nodup_cons.mp front).1
      simp only [numbered, if_neg fresh, readFirst]
      exact (ih front).mpr ⟨entries, all, moved, nodup⟩

theorem forall₂_imp_of_mem {α β : Type} {before after : α → β → Prop} {items : List α}
    {results : List β} (all : List.Forall₂ before items results)
    (implied : ∀ item ∈ items, ∀ result ∈ results, before item result → after item result) :
    List.Forall₂ after items results := by
  rw [List.forall₂_iff_zip] at all ⊢
  refine ⟨all.1, fun member => ?_⟩
  obtain ⟨left, right⟩ := List.of_mem_zip member
  exact implied _ left _ right (all.2 member)

private theorem mapM_some_iff {α β : Type} {f : α → Option β} {items : List α} {results : List β} :
    items.mapM f = some results ↔
      List.Forall₂ (fun item result => f item = some result) items results := by
  induction items generalizing results with
  | nil => simp [eq_comm]
  | cons item rest ih =>
    simp only [List.mapM_cons, Option.bind_eq_bind, Option.bind_eq_some_iff, Option.pure_def,
      Option.some.injEq, List.forall₂_cons_left_iff]
    constructor
    · rintro ⟨first, found, others, all, rfl⟩
      exact ⟨first, others, found, ih.mp all, rfl⟩
    · rintro ⟨first, others, found, all, rfl⟩
      exact ⟨first, found, others, ih.mpr all, rfl⟩

private theorem numberedArgs_length (args : List Argument) :
    (numberedArgs args).length = args.length := by
  simp [numberedArgs]

theorem numberedArgs_numbers (args : List Argument) :
    (numberedArgs args).map Prod.fst = List.range' 1 args.length :=
  List.map_fst_zip (by simp)

theorem mem_numberedArgs {args : List Argument} {number : Nat} {arg : Argument} :
    (number, arg) ∈ numberedArgs args ↔ 1 ≤ number ∧ args[number - 1]? = some arg := by
  constructor
  · intro member
    obtain ⟨index, inside, same⟩ := List.mem_iff_getElem.mp member
    simp only [numberedArgs, List.getElem_zip, List.getElem_range', Prod.mk.injEq] at same
    obtain ⟨rfl, rfl⟩ := same
    have place : 1 + 1 * index - 1 = index := by omega
    exact ⟨by omega, by rw [place]; exact List.getElem?_eq_getElem _⟩
  · rintro ⟨counted, held⟩
    obtain ⟨inside, rfl⟩ := List.getElem?_eq_some_iff.mp held
    refine List.mem_iff_getElem.mpr ⟨number - 1, by rwa [numberedArgs_length], ?_⟩
    simp only [numberedArgs, List.getElem_zip, List.getElem_range', Prod.mk.injEq, and_true]
    omega

/-- Numbered arguments can be put in order exactly when they are numbered from one on. -/
theorem inOrder_some_iff {found : Numbered} {args : List Argument}
    (distinct : (found.map Prod.fst).Nodup) :
    inOrder? found = some args ↔ found.Perm (numberedArgs args) := by
  rw [inOrder?, mapM_some_iff, List.forall₂_iff_zip]
  simp only [lookup_some_iff distinct, List.length_range']
  constructor
  · rintro ⟨count, all⟩
    have nodup : (numberedArgs args).Nodup := by
      refine List.Nodup.of_map Prod.fst ?_
      rw [numberedArgs_numbers]
      exact List.nodup_range'
    rw [count] at all
    have inside : numberedArgs args ⊆ found := fun entry member => all member
    refine ((nodup.subperm inside).perm_of_length_le (Nat.le_of_eq ?_)).symm
    rw [numberedArgs_length, count]
  · intro same
    have count : found.length = args.length := by rw [same.length_eq, numberedArgs_length]
    refine ⟨count, fun member => same.mem_iff.mpr ?_⟩
    rw [count] at member
    exact member

/-- Argument elements give some arguments in order exactly when each of them can be read, under a
number of its own, and the numbers are those of the arguments. -/
theorem readArguments_inOrder_iff {elements : List Element} {args : List Argument}
    (room : args.length ≤ maxArguments) :
    (∃ found, readArguments [] elements = .ok found ∧ inOrder? found = some args) ↔
      ∃ entries : Numbered, List.Forall₂ (fun child entry =>
          Lenient child.name entry.1 ∧ readArgument child = .ok entry.2) elements entries ∧
        entries.Perm (numberedArgs args) := by
  simp only [@readArguments_ok_iff [] _ _ List.nodup_nil, List.append_nil]
  constructor
  · rintro ⟨_, ⟨entries, all, rfl, distinct⟩, placed⟩
    refine ⟨entries, all.imp fun child entry both => ?_,
      (List.reverse_perm entries).symm.trans ((inOrder_some_iff distinct).mp placed)⟩
    exact ⟨(argumentNumber_some_iff.mp both.1).1, both.2⟩
  · rintro ⟨entries, all, same⟩
    have numbers := same.map Prod.fst
    rw [numberedArgs_numbers] at numbers
    have distinct : (entries.reverse.map Prod.fst).Nodup := by
      rw [List.map_reverse, List.nodup_reverse]
      exact numbers.nodup_iff.mpr List.nodup_range'
    refine ⟨_, ⟨entries, ?_, rfl, distinct⟩,
      (inOrder_some_iff distinct).mpr ((List.reverse_perm entries).trans same)⟩
    refine forall₂_imp_of_mem all fun child _ entry entered both => ?_
    have inRange := List.mem_range'_1.mp (numbers.mem_iff.mp (List.mem_map_of_mem entered))
    exact ⟨argumentNumber_some_iff.mpr ⟨both.1, by omega, by omega⟩, both.2⟩

/-! ## Instructions -/

theorem readOrder_some_iff {text : String} {order : UInt32} :
    readOrder? text = some order ↔ Integer.Decimal (Text.trim text.toList) order.toNat := by
  simp only [readOrder?, Option.bind_eq_bind, Option.bind_eq_some_iff,
    Option.ite_none_right_eq_some, Integer.natural_some_iff]
  constructor
  · rintro ⟨number, denoted, small, same⟩
    cases same
    rwa [UInt32.toNat_ofNat_of_lt' small]
  · intro denoted
    exact ⟨order.toNat, denoted, order.toNat_lt_size, by rw [UInt32.ofNat_toNat]⟩

/-- An instruction is read in steps: its attributes, its argument elements, and then the
arguments in order. -/
theorem readInstruction_steps {element : Element} {instr : Instruction} :
    readInstruction element = .ok instr ↔
      element.checkAttributes ["order", "opcode"] = .ok () ∧
      (∃ text, element.attribute? "order" = some text ∧ readOrder? text = some instr.order) ∧
      (∃ text, element.attribute? "opcode" = some text ∧
        Opcode.ofMnemonic? (Text.trimmed text) = some instr.opcode) ∧
      ∃ children found, element.elements = .ok children ∧
        readArguments [] children = .ok found ∧ inOrder? found = some instr.args ∧
        instr.args.length = instr.opcode.arity := by
  rw [readInstruction, bind_ok_iff]
  constructor
  · rintro ⟨⟨⟩, checked, read⟩
    refine ⟨checked, ?_⟩
    cases ordered : element.attribute? "order" with
    | none => simp [ordered, throw, throwThe, MonadExceptOf.throw] at read
    | some orderText =>
      simp only [ordered] at read
      cases order : readOrder? orderText with
      | none => simp [order, throw, throwThe, MonadExceptOf.throw] at read
      | some number =>
        simp only [order] at read
        cases coded : element.attribute? "opcode" with
        | none => simp [coded, throw, throwThe, MonadExceptOf.throw] at read
        | some opcodeText =>
          simp only [coded] at read
          cases opcode : Opcode.ofMnemonic? (Text.trimmed opcodeText) with
          | none => simp [opcode, throw, throwThe, MonadExceptOf.throw] at read
          | some known =>
            simp only [opcode, bind_ok_iff] at read
            obtain ⟨children, inside, found, numbered, read⟩ := read
            cases placed : inOrder? found with
            | none => simp [placed, throw, throwThe, MonadExceptOf.throw] at read
            | some args =>
              simp only [placed] at read
              split at read
              · rename_i counted
                cases read
                exact ⟨⟨orderText, rfl, order⟩, ⟨opcodeText, rfl, opcode⟩, children, found, inside,
                  numbered, placed, counted⟩
              · cases read
  · rintro ⟨checked, ⟨orderText, ordered, order⟩, ⟨opcodeText, coded, opcode⟩, children, found,
      inside, numbered, placed, counted⟩
    refine ⟨(), checked, ?_⟩
    simp only [ordered, order, coded, opcode, inside, bind, Except.bind, numbered, placed, counted,
      if_true]
    rfl

private theorem readInstruction_ok_iff {element : Element} {instr : Instruction}
    (sound : element.Sound) :
    readInstruction element = .ok instr ↔ IsInstruction Lenient element instr := by
  have children : ∀ child ∈ elementsOf element.children, ∀ arg,
      readArgument child = .ok arg ↔ IsArgument child arg :=
    fun child member _ => readArgument_ok_iff (sound_of_mem sound.inside member).distinct
  rw [readInstruction_steps]
  simp only [checkAttributes_ok_iff, attribute_some_iff sound.distinct, readOrder_some_iff,
    Opcode.ofMnemonic_some_iff, Element.elements, elementsAmong_ok_iff]
  constructor
  · rintro ⟨only, order, opcode, _, found, ⟨blank, rfl⟩, numbered, placed, count⟩
    have room : instr.args.length ≤ maxArguments := count ▸ arity_le_maxArguments instr.opcode
    obtain ⟨entries, all, same⟩ := (readArguments_inOrder_iff room).mp ⟨found, numbered, placed⟩
    refine ⟨only, order, opcode, blank, ⟨entries, ?_, same⟩, count⟩
    refine forall₂_imp_of_mem all fun child member entry _ both => ?_
    exact ⟨both.1, (children child member _).mp both.2⟩
  · rintro ⟨only, order, opcode, blank, ⟨entries, all, same⟩, count⟩
    have room : instr.args.length ≤ maxArguments := count ▸ arity_le_maxArguments instr.opcode
    have readable : List.Forall₂ (fun child (entry : Nat × Argument) =>
        Lenient child.name entry.1 ∧ readArgument child = .ok entry.2)
        (elementsOf element.children) entries := by
      refine forall₂_imp_of_mem all fun child member entry _ both => ?_
      exact ⟨both.1, (children child member _).mpr both.2⟩
    obtain ⟨found, numbered, placed⟩ := (readArguments_inOrder_iff room).mpr ⟨entries, readable, same⟩
    exact ⟨only, order, opcode, _, found, ⟨blank, rfl⟩, numbered, placed, count⟩

/-! ## Programs -/

private theorem readInstructions_ok_iff {elements : List Element}
    {instructions : List Instruction} :
    readInstructions elements = .ok instructions ↔
      List.Forall₂ (fun child instr => child.name = "instruction" ∧
        readInstruction child = .ok instr) elements instructions := by
  induction elements generalizing instructions with
  | nil => simp [readInstructions, eq_comm]
  | cons element rest ih =>
    rw [readInstructions, List.forall₂_cons_left_iff]
    constructor
    · intro read
      split at read
      · rename_i named
        cases first : readInstruction element with
        | error error => simp [first] at read
        | ok instr =>
          simp only [first] at read
          cases others : readInstructions rest with
          | error error => simp [others, Except.map] at read
          | ok later =>
            simp only [others, Except.map, Except.ok.injEq] at read
            exact ⟨instr, later, ⟨named, rfl⟩, ih.mp others, read.symm⟩
      · cases read
    · rintro ⟨instr, later, ⟨named, first⟩, all, rfl⟩
      rw [if_pos named, first, ih.mpr all]
      rfl

private theorem readRoot_steps {root : Element} {program : Program} :
    readRoot root = .ok program ↔
      root.name = "program" ∧ root.attribute? "language" = some "IPPcode24" ∧
      root.checkAttributes ["language", "name", "description"] = .ok () ∧
      ∃ children, root.elements = .ok children ∧
        readInstructions children = .ok program.instructions := by
  rw [readRoot]
  by_cases named : root.name = "program"
  · by_cases spoken : root.attribute? "language" = some "IPPcode24"
    · simp only [named, spoken, ne_eq, not_true_eq_false, if_false, true_and, bind_ok_iff]
      constructor
      · rintro ⟨_, checked, children, inside, instructions, read, same⟩
        cases same
        exact ⟨checked, children, inside, read⟩
      · rintro ⟨checked, children, inside, read⟩
        exact ⟨(), checked, children, inside, program.instructions, read, rfl⟩
    · simp only [named, spoken, ne_eq, not_true_eq_false, not_false_eq_true, if_false, if_true,
        false_and, and_false, iff_false]
      rintro ⟨⟩
  · simp only [named, ne_eq, not_false_eq_true, if_true, false_and, iff_false]
    rintro ⟨⟩

/-- A root element is read as a program exactly when it has the structure of one. -/
theorem readRoot_ok_iff {root : Element} {program : Program} (sound : root.Sound) :
    readRoot root = .ok program ↔ IsProgram Lenient root program := by
  have children : ∀ child ∈ elementsOf root.children, ∀ instr,
      readInstruction child = .ok instr ↔ IsInstruction Lenient child instr :=
    fun child member _ => readInstruction_ok_iff (sound_of_mem sound.inside member)
  rw [readRoot_steps]
  simp only [attribute_some_iff sound.distinct, checkAttributes_ok_iff, Element.elements,
    elementsAmong_ok_iff, readInstructions_ok_iff]
  constructor
  · rintro ⟨name, language, only, _, ⟨blank, rfl⟩, all⟩
    refine ⟨name, language, only, blank, forall₂_imp_of_mem all fun child member instr _ both => ?_⟩
    exact ⟨both.1, (children child member instr).mp both.2⟩
  · rintro ⟨name, language, only, blank, all⟩
    refine ⟨name, language, only, _, ⟨blank, rfl⟩,
      forall₂_imp_of_mem all fun child member instr _ both => ?_⟩
    exact ⟨both.1, (children child member instr).mpr both.2⟩

theorem root_of_document {text : String} {node : Xml.Node}
    (formed : Xml.document? text = some node) :
    ∃ root : Element, Element.ofNode? node = some root ∧ root.Sound ∧
      Interchange.read text = readRoot root := by
  obtain ⟨element, sound, rfl⟩ := Xml.document_sound formed
  refine ⟨_, rfl, ⟨sound.distinct, ?_⟩, ?_⟩
  · intro child member
    exact sound.inside child (List.mem_reverse.mp member)
  · rw [Interchange.read, formed]
    rfl

end Framecode.Interchange
