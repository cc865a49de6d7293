import Framecode.Proofs.Interchange.Lines
import Framecode.Proofs.Xml.Places

/-! Elements that differ by an aside. Such elements have the same children and the same blanks,
but the text that they start with may differ, and only an argument is read by that. So when an
element in a program is marked in this way, the program stays as it is, or one text in it
becomes another. -/
namespace Framecode

/-- An instruction with another text in one of its arguments, counted from zero. -/
def Instruction.withText (instr : Instruction) (index : Nat) (text : String) : Instruction :=
  { instr with args := instr.args.modify index fun arg => { arg with text } }

/-- A program with another text in an argument of one of its instructions, counted from
zero. -/
def Program.withText (program : Program) (position index : Nat) (text : String) : Program :=
  ⟨program.instructions.modify position (·.withText index text)⟩

namespace Interchange

open Xml (Unfinished Node Grown Parted)

/-! ## Children -/

private theorem elements_add (element : Unfinished) (child : Node) :
    elementsOf (element.add child).children.reverse =
      elementsOf element.children.reverse ++ elementsOf [child] := by
  rw [Unfinished.add, List.reverse_cons, elementsOf_append]

private theorem blank_add {element : Unfinished} {child : Node} :
    BlankTexts (element.add child).children.reverse ↔
      BlankTexts element.children.reverse ∧ BlankTexts [child] := by
  rw [Unfinished.add, List.reverse_cons, blankTexts_append]

private theorem isBlankText_append (first second : String) :
    Text.isBlankText (first ++ second) = (Text.isBlankText first && Text.isBlankText second) := by
  rw [Text.isBlankText, String.toList_append, List.all_append]
  rfl

/-- A text that is added joins the one before it or is a child of its own. -/
theorem addText_cases (element : Unfinished) (line : Nat) (content : String) :
    (∃ start before rest, element.children.reverse = rest ++ [.text start before] ∧
      (element.addText line content).children.reverse = rest ++ [.text start (before ++ content)]) ∨
    element.addText line content = element.add (.text line content) := by
  obtain ⟨first, name, attributes, scope, children⟩ := element
  cases children with
  | nil => exact .inr rfl
  | cons latest children =>
    cases latest with
    | text start before =>
      exact .inl ⟨start, before, children.reverse, by simp, by simp [Unfinished.addText]⟩
    | element line name attributes children => exact .inr rfl
    | gap => exact .inr rfl

private theorem elements_addText (element : Unfinished) (line : Nat) (content : String) :
    elementsOf (element.addText line content).children.reverse =
      elementsOf element.children.reverse := by
  rcases addText_cases element line content with ⟨start, before, rest, old, new⟩ | added
  · rw [old, new]
    simp
  · rw [added, elements_add]
    simp

private theorem blank_addText {element : Unfinished} {line : Nat} {content : String} :
    BlankTexts (element.addText line content).children.reverse ↔
      BlankTexts element.children.reverse ∧ Text.isBlankText content = true := by
  rcases addText_cases element line content with ⟨start, before, rest, old, new⟩ | added
  · rw [old, new]
    simp [isBlankText_append, and_assoc]
  · rw [added, blank_add]
    simp

/-! ## The text that an element starts with -/

/-- The text that nodes start with. -/
def leadOf : List Node → String
  | .text _ content :: _ => content
  | _ => ""

theorem leadingText_eq (element : Element) : element.leadingText = leadOf element.children := by
  obtain ⟨line, name, attributes, children⟩ := element
  cases children with
  | nil => rfl
  | cons first rest => cases first <;> rfl

/-- A later node changes the text at the start only if there is no other yet. -/
theorem leadOf_later {nodes : List Node} (filled : nodes ≠ []) (latest : Node) :
    leadOf (latest :: nodes).reverse = leadOf nodes.reverse := by
  obtain ⟨first, rest, reversed⟩ := List.exists_cons_of_ne_nil (List.reverse_ne_nil_iff.mpr filled)
  rw [List.reverse_cons, reversed]
  cases first <;> rfl

/-- The text that an unfinished element starts with. -/
def startText (element : Unfinished) : String := leadOf element.children.reverse

/-- A child that is no text leaves the text at the start as it is. -/
theorem startText_add (element : Unfinished) {child : Node} (other : leadOf [child] = "") :
    startText (element.add child) = startText element := by
  by_cases empty : element.children = []
  · rw [startText, startText, Unfinished.add, empty]
    exact other
  · exact leadOf_later empty child

/-- A text that is added goes on with the text at the start, or leaves it as it is. Behind an
aside it leaves it. -/
theorem startText_addText (element : Unfinished) (line : Nat) :
    (.gap ∉ element.children ∧
      ∀ content, startText (element.addText line content) = startText element ++ content) ∨
    ∀ content, startText (element.addText line content) = startText element := by
  obtain ⟨start, name, attributes, scope, children⟩ := element
  match children with
  | [] => exact .inl ⟨by simp, fun content => (String.empty_append).symm⟩
  | [.text line before] => exact .inl ⟨by simp, fun content => rfl⟩
  | .text line before :: next :: rest =>
    refine .inr fun content => ?_
    have filled : next :: rest ≠ [] := by simp
    exact (leadOf_later filled _).trans (leadOf_later filled _).symm
  | .gap :: rest => exact .inr fun content => leadOf_later (by simp) _
  | .element line name attributes children :: rest =>
    exact .inr fun content => leadOf_later (by simp) _

theorem startText_behind {element : Unfinished} (held : .gap ∈ element.children) (line : Nat)
    (content : String) : startText (element.addText line content) = startText element := by
  rcases startText_addText element line with ⟨absent, _⟩ | same
  · exact absurd held absent
  · exact same content

theorem gap_addText_iff {element : Unfinished} {line : Nat} {content : String} :
    .gap ∈ (element.addText line content).children ↔ .gap ∈ element.children := by
  rw [← List.mem_reverse, ← @List.mem_reverse _ _ element.children]
  rcases addText_cases element line content with ⟨start, before, rest, old, new⟩ | added
  · rw [old, new]
    simp
  · rw [added, Unfinished.add, List.reverse_cons]
    simp

/-! ## Marked elements -/

/-- Elements that grow by the same additions get the same children, and the same blanks. -/
theorem grown_children {element other left right : Unfinished}
    (grown : Grown element other left right) :
    (∃ later, elementsOf left.children.reverse = elementsOf element.children.reverse ++ later ∧
      elementsOf right.children.reverse = elementsOf other.children.reverse ++ later) ∧
    ((BlankTexts element.children.reverse → BlankTexts other.children.reverse) →
      BlankTexts left.children.reverse → BlankTexts right.children.reverse) := by
  induction grown with
  | start => exact ⟨⟨[], by simp⟩, id⟩
  | gap grown ih =>
    obtain ⟨elements, blank⟩ := ih
    simp only [elements_add, blank_add, elementsOf_gap, elementsOf_nil, List.append_nil]
    exact ⟨elements, fun start => And.imp_left (blank start)⟩
  | text grown line content ih =>
    obtain ⟨elements, blank⟩ := ih
    simp only [elements_addText, blank_addText]
    exact ⟨elements, fun start => And.imp_left (blank start)⟩
  | child grown inner ih =>
    obtain ⟨⟨later, first, second⟩, blank⟩ := ih
    simp only [elements_add, blank_add, first, second, List.append_assoc]
    exact ⟨⟨_, rfl, rfl⟩, fun start => And.imp_left (blank start)⟩

/-- One element is another with an aside put into it, where it started with the text `kept`
before. -/
structure Marked (kept : String) (element other : Unfinished) : Prop where
  alike : element.Alike other
  elements : elementsOf other.children.reverse = elementsOf element.children.reverse
  blank : BlankTexts element.children.reverse → BlankTexts other.children.reverse
  held : .gap ∈ other.children
  text : startText other = kept
  begins : Text.Begins kept.toList (startText element).toList

theorem marked_of_parted {element start other : Unfinished} (parted : Parted element start other) :
    Marked (startText element) start other := by
  have alike := parted.alike
  cases parted with
  | beside =>
    refine ⟨alike, ?_, ?_, List.mem_cons_self, startText_add _ rfl, Text.begins_self _⟩
    · simp [elements_add]
    · simp [blank_add]
  | @within inner first second whole joins =>
    have held : .gap ∈ ((inner.addText 0 first).add .gap).children := List.mem_cons_self
    refine ⟨alike, ?_, ?_, gap_addText_iff.mpr held, ?_, ?_⟩
    · simp [elements_addText, elements_add]
    · simp only [blank_addText, blank_add]
      rintro ⟨blank, all⟩
      obtain ⟨before, behind⟩ := joins.blank all
      simp [blank, before, behind]
    · rw [startText_behind held, startText_add _ rfl]
    · rcases startText_addText inner 0 with ⟨_, goesOn⟩ | same
      · rw [goesOn, goesOn, String.toList_append, String.toList_append]
        exact joins.begins.behind _
      · rw [same, same]
        exact Text.begins_self _

theorem marked_of_grown {kept : String} {start other element second : Unfinished}
    (marked : Marked kept start other) (grown : Grown start other element second) :
    Marked kept element second := by
  obtain ⟨⟨later, first, last⟩, blank⟩ := grown_children grown
  have elements : elementsOf second.children.reverse = elementsOf element.children.reverse := by
    rw [first, last, marked.elements]
  suffices starts : .gap ∈ second.children ∧ startText second = kept ∧
      Text.Begins kept.toList (startText element).toList from
    ⟨grown.alike marked.alike, elements, blank marked.blank, starts.1, starts.2.1, starts.2.2⟩
  clear first last elements blank
  induction grown with
  | start => exact ⟨marked.held, marked.text, marked.begins⟩
  | gap grown ih =>
    obtain ⟨held, text, begins⟩ := ih
    rw [startText_add _ rfl, startText_add _ rfl]
    exact ⟨List.mem_cons_of_mem _ held, text, begins⟩
  | @text left right grown line content ih =>
    obtain ⟨held, text, begins⟩ := ih
    refine ⟨gap_addText_iff.mpr held, by rw [startText_behind held, text], ?_⟩
    rcases startText_addText left line with ⟨_, goesOn⟩ | same
    · rw [goesOn, String.toList_append]
      exact begins.append _
    · rwa [same]
  | child grown inner ih =>
    obtain ⟨held, text, begins⟩ := ih
    rw [startText_add _ rfl, startText_add _ rfl]
    exact ⟨List.mem_cons_of_mem _ held, text, begins⟩

/-- Two elements that hold the same children, but for one of them. -/
structure Holding (earlier : List Element) (first second element other : Element) : Prop where
  name : other.name = element.name
  attributes : other.attributes = element.attributes
  blank : BlankTexts element.children → BlankTexts other.children
  elements : ∃ later, elementsOf element.children = earlier ++ first :: later ∧
    elementsOf other.children = earlier ++ second :: later

theorem holding_of_grown {parent first second left right : Unfinished}
    (grown : Grown (parent.add first.node) (parent.add second.node) left right) :
    Holding (elementsOf parent.children.reverse) (.ofOpen first) (.ofOpen second) (.ofOpen left)
      (.ofOpen right) := by
  have alike := grown.alike ⟨rfl, rfl, rfl⟩
  have inner : ∀ element : Unfinished, elementsOf [element.node] = [.ofOpen element] := fun _ => rfl
  obtain ⟨⟨later, before, after⟩, blank⟩ := grown_children grown
  rw [elements_add, inner, List.append_assoc] at before after
  refine ⟨congrArg Xml.Name.base alike.name.symm, alike.attributes.symm, blank ?_, later, before,
    after⟩
  rw [blank_add, blank_add]
  exact And.imp_right fun _ => by simp [Unfinished.node]

/-! ## Programs with a marked element -/

/-- Of two lists that are related item by item, an item may be replaced in both. -/
theorem forall₂_replace {α β : Type} {related : α → β → Prop} {before after : List α} {item : α}
    {results : List β} (all : List.Forall₂ related (before ++ item :: after) results) :
    ∃ first result last, results = first ++ result :: last ∧ first.length = before.length ∧
      related item result ∧ ∀ other changed, related other changed →
        List.Forall₂ related (before ++ other :: after) (first ++ changed :: last) := by
  induction before generalizing results with
  | nil =>
    cases all with
    | @cons _ result _ last here rest =>
      exact ⟨[], result, last, rfl, rfl, here, fun other changed held => .cons held rest⟩
  | cons head before ih =>
    cases all with
    | @cons _ start _ results here rest =>
      obtain ⟨first, result, last, rfl, length, there, replace⟩ := ih rest
      exact ⟨start :: first, result, last, rfl, by simp [length], there,
        fun other changed held => .cons here (replace other changed held)⟩

/-- Another text in one argument is another text at one number. -/
theorem numberedArgs_withText (args : List Argument) {number : Nat} (text : String)
    (counted : 1 ≤ number) :
    numberedArgs (args.modify (number - 1) fun arg => { arg with text }) =
      (numberedArgs args).map fun entry =>
        if entry.1 = number then (entry.1, { entry.2 with text }) else entry := by
  apply List.ext_getElem
  · simp [numberedArgs]
  · intro index inside other
    simp only [numberedArgs, List.getElem_zip, List.getElem_range', List.getElem_map,
      List.getElem_modify]
    by_cases here : number - 1 = index
    · rw [if_pos here, if_pos (by omega)]
    · rw [if_neg here, if_neg (by omega)]

private theorem only_congr {element other : Element} (same : other.attributes = element.attributes)
    {names : List String} : other.Only names ↔ element.Only names := by
  rw [Element.Only, Element.Only, same]

private theorem has_congr {element other : Element} (same : other.attributes = element.attributes)
    {name value : String} : other.Has name value ↔ element.Has name value := by
  rw [Element.Has, Element.Has, same]

/-- Numbered arguments may have another text at one number. -/
theorem perm_withText {front back : Numbered} {number : Nat} {arg : Argument}
    {args : List Argument} (same : (front ++ (number, arg) :: back).Perm (numberedArgs args))
    (text : String) : (front ++ (number, { arg with text }) :: back).Perm
      (numberedArgs (args.modify (number - 1) fun arg => { arg with text })) := by
  have member : (number, arg) ∈ front ++ (number, arg) :: back := by simp
  have counted := (mem_numberedArgs.mp (same.mem_iff.mp member)).1
  have nodup : ((front ++ (number, arg) :: back).map Prod.fst).Nodup := by
    rw [(same.map Prod.fst).nodup_iff, numberedArgs_numbers]
    exact List.nodup_range'
  rw [List.map_append, List.map_cons, List.nodup_middle, List.nodup_cons, ← List.map_append] at nodup
  -- No other entry has the number, so all others stay as they are.
  have others : ∀ entry ∈ front ++ back, entry.1 ≠ number :=
    fun entry held same => nodup.1 (List.mem_map.mpr ⟨entry, held, same⟩)
  have stays : ∀ entries : Numbered, (∀ entry ∈ entries, entry ∈ front ++ back) →
      entries.map (fun entry =>
        if entry.1 = number then (entry.1, { entry.2 with text }) else entry) = entries := by
    intro entries inside
    conv_rhs => rw [← List.map_id entries]
    exact List.map_congr_left fun entry held => if_neg (others entry (inside entry held))
  have changed := same.map fun entry =>
    if entry.1 = number then (entry.1, { entry.2 with text }) else entry
  rw [List.map_append, List.map_cons, if_pos rfl, stays front (fun _ => List.mem_append_left back),
    stays back (fun _ => List.mem_append_right front)] at changed
  rw [numberedArgs_withText args text counted]
  exact changed

/-- An instruction with one argument replaced by another with the same name is the same
instruction with another text there. -/
theorem isInstruction_holding {fits : String → Nat → Prop} {earlier : List Element}
    {first second element other : Element} {instr : Instruction}
    (holding : Holding earlier first second element other) (named : second.name = first.name)
    (fitting : IsInstruction fits element instr) :
    ∃ number arg, fits first.name number ∧ 1 ≤ number ∧ instr.args[number - 1]? = some arg ∧
      IsArgument first arg ∧ ∀ text, IsArgument second { arg with text } →
        IsInstruction fits other (instr.withText (number - 1) text) := by
  obtain ⟨only, order, opcode, blank, ⟨entries, all, same⟩, count⟩ := fitting
  obtain ⟨later, held, heldToo⟩ := holding.elements
  rw [held] at all
  obtain ⟨front, ⟨number, arg⟩, back, rfl, _, ⟨fit, argument⟩, replace⟩ := forall₂_replace all
  have member : (number, arg) ∈ front ++ (number, arg) :: back := by simp
  obtain ⟨counted, place⟩ := mem_numberedArgs.mp (same.mem_iff.mp member)
  obtain ⟨orderText, hasOrder, ordered⟩ := order
  obtain ⟨opcodeText, hasOpcode, known⟩ := opcode
  refine ⟨number, arg, fit, counted, place, argument, fun text changed => ?_⟩
  refine ⟨(only_congr holding.attributes).mpr only,
    ⟨orderText, (has_congr holding.attributes).mpr hasOrder, ordered⟩,
    ⟨opcodeText, (has_congr holding.attributes).mpr hasOpcode, known⟩, holding.blank blank,
    ⟨front ++ (number, { arg with text }) :: back, ?_, perm_withText same text⟩, ?_⟩
  · rw [heldToo]
    exact replace second _ ⟨by rwa [named], changed⟩
  · rw [Instruction.withText, List.length_modify]
    exact count

/-- A program with one instruction replaced by another is the same program with another
instruction there. -/
theorem isProgram_holding {fits : String → Nat → Prop} {earlier : List Element}
    {first second root other : Element} {program : Program}
    (holding : Holding earlier first second root other) (named : second.name = first.name)
    (fitting : IsProgram fits root program) :
    ∃ instr, program.instructions[earlier.length]? = some instr ∧ IsInstruction fits first instr ∧
      ∀ change : Instruction → Instruction, IsInstruction fits second (change instr) →
        IsProgram fits other ⟨program.instructions.modify earlier.length change⟩ := by
  obtain ⟨name, language, only, blank, all⟩ := fitting
  obtain ⟨later, held, heldToo⟩ := holding.elements
  rw [held] at all
  obtain ⟨front, instr, back, same, length, ⟨instruction, fit⟩, replace⟩ := forall₂_replace all
  refine ⟨instr, ?_, fit, fun change fitToo => ?_⟩
  · rw [same, ← length]
    simp
  · refine ⟨holding.name.trans name, (has_congr holding.attributes).mpr language,
      (only_congr holding.attributes).mpr only, holding.blank blank, ?_⟩
    rw [heldToo, same, ← length, List.modify_eq_set_getElem?]
    simpa using replace second (change instr) ⟨named.trans instruction, fitToo⟩

section

variable {fits : String → Nat → Prop} {kept : String} {element other : Unfinished}

theorem Marked.name (marked : Marked kept element other) :
    (Element.ofOpen other).name = (Element.ofOpen element).name :=
  congrArg Xml.Name.base marked.alike.name.symm

/-- An aside in the content of a program leaves it as it is. -/
theorem isProgram_marked {program : Program} (marked : Marked kept element other)
    (fitting : IsProgram fits (.ofOpen element) program) :
    IsProgram fits (.ofOpen other) program := by
  obtain ⟨name, language, only, blank, all⟩ := fitting
  have attributes := marked.alike.attributes.symm
  refine ⟨marked.name.trans name, (has_congr attributes).mpr language,
    (only_congr attributes).mpr only, marked.blank blank, ?_⟩
  simp only [Element.ofOpen, marked.elements] at all ⊢
  exact all

/-- An aside in the content of an instruction leaves it as it is. -/
theorem isInstruction_marked {instr : Instruction} (marked : Marked kept element other)
    (fitting : IsInstruction fits (.ofOpen element) instr) :
    IsInstruction fits (.ofOpen other) instr := by
  obtain ⟨only, ⟨order, hasOrder, ordered⟩, ⟨opcode, hasOpcode, known⟩, blank, args, count⟩ :=
    fitting
  have attributes := marked.alike.attributes.symm
  refine ⟨(only_congr attributes).mpr only, ⟨order, (has_congr attributes).mpr hasOrder, ordered⟩,
    ⟨opcode, (has_congr attributes).mpr hasOpcode, known⟩, marked.blank blank, ?_, count⟩
  simp only [Element.ofOpen, marked.elements] at args ⊢
  exact args

/-- An aside in an argument leaves the text that was there before it. -/
theorem isArgument_marked {arg : Argument} (marked : Marked kept element other)
    (fitting : IsArgument (.ofOpen element) arg) :
    IsArgument (.ofOpen other) { arg with text := Text.trimmed kept } := by
  obtain ⟨only, ⟨kind, hasKind, named⟩, flat, _⟩ := fitting
  have attributes := marked.alike.attributes.symm
  refine ⟨(only_congr attributes).mpr only, ⟨kind, (has_congr attributes).mpr hasKind, named⟩,
    marked.elements.trans flat, ?_⟩
  rw [leadingText_eq]
  exact congrArg Text.trimmed marked.text.symm

end

end Interchange

end Framecode
