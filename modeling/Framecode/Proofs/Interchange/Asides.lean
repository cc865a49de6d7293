import Framecode.Proofs.Interchange.Marked
import Mathlib.Logic.Relation

/-! Comments and processing instructions in program documents. Between the elements of a
program or of an instruction they change nothing. In an argument they end its text: an
argument is read as the text that it starts with, and what stands behind the first aside in it
is not part of that. -/
namespace Framecode

/-- One argument is another that has lost the end of its text. -/
structure Argument.Shortens (arg cut : Argument) : Prop where
  kind : cut.kind = arg.kind
  text : cut.text.toList <+: arg.text.toList

/-- One instruction is another where some arguments have lost the end of their text. -/
structure Instruction.Shortens (instr cut : Instruction) : Prop where
  order : cut.order = instr.order
  opcode : cut.opcode = instr.opcode
  args : List.Forall₂ Argument.Shortens instr.args cut.args

/-- One program is another where some arguments have lost the end of their text. -/
def Program.Shortens (program cut : Program) : Prop :=
  List.Forall₂ Instruction.Shortens program.instructions cut.instructions

namespace Interchange

open Xml (Unfinished Grown Parted Enclosed Reading)

/-! ## Elements in elements -/

/-- An element holds elements inside each other, down to some depth. -/
def Nested : Nat → Element → Prop
  | 0, _ => True
  | depth + 1, element => ∃ child ∈ elementsOf element.children, Nested depth child

private theorem nested_of_le {depth deeper : Nat} {element : Element} (less : depth ≤ deeper)
    (nested : Nested deeper element) : Nested depth element := by
  induction depth generalizing deeper element with
  | zero => trivial
  | succ depth ih =>
    obtain ⟨deeper, rfl⟩ := Nat.exists_eq_add_of_le' (Nat.le_trans (Nat.succ_pos depth) less)
    obtain ⟨child, member, inner⟩ := nested
    exact ⟨child, member, ih (Nat.le_of_succ_le_succ less) inner⟩

/-- In a program there are arguments in instructions, and nothing in these. -/
theorem not_nested_of_program {fits : String → Nat → Prop} {root : Element} {program : Program}
    (fitting : IsProgram fits root program) : ¬Nested 3 root := by
  rintro ⟨instruction, inRoot, argument, inInstruction, element, inArgument, _⟩
  obtain ⟨before, after, split⟩ := List.append_of_mem inRoot
  have instructions := fitting.instructions
  rw [split] at instructions
  obtain ⟨_, instr, _, _, _, ⟨_, fit⟩, _⟩ := forall₂_replace instructions
  obtain ⟨before, after, split⟩ := List.append_of_mem inInstruction
  obtain ⟨entries, args, _⟩ := fit.args
  rw [split] at args
  obtain ⟨_, entry, _, _, _, ⟨_, held⟩, _⟩ := forall₂_replace args
  rw [held.flat] at inArgument
  cases inArgument

private theorem nested_of_enclosed {first second : Unfinished} {outer : List Unfinished}
    {left right : Unfinished} {depth : Nat} (nested : Nested depth (.ofOpen first))
    (enclosed : Enclosed first second outer left right) :
    Nested (depth + outer.length) (.ofOpen left) := by
  induction outer generalizing first second depth with
  | nil =>
    obtain ⟨rfl, rfl⟩ := enclosed
    exact nested
  | cons parent outer ih =>
    obtain ⟨inner, other, grown, enclosed⟩ := enclosed
    obtain ⟨later, held, _⟩ := (holding_of_grown grown).elements
    have deeper : Nested (depth + 1) (.ofOpen inner) := ⟨.ofOpen first, by rw [held]; simp, nested⟩
    have reached := ih deeper enclosed
    rwa [List.length_cons, ← Nat.add_assoc, Nat.add_right_comm]

/-! ## Texts that are cut -/

private theorem argument_shortens_self (arg : Argument) : arg.Shortens arg := ⟨rfl, List.prefix_rfl⟩

private theorem instruction_shortens_self (instr : Instruction) : instr.Shortens instr :=
  ⟨rfl, rfl, List.forall₂_same.mpr fun arg _ => argument_shortens_self arg⟩

private theorem program_shortens_self (program : Program) : program.Shortens program :=
  List.forall₂_same.mpr fun instr _ => instruction_shortens_self instr

private theorem forall₂_trans {α : Type} {related : α → α → Prop}
    (trans : ∀ {first second third}, related first second → related second third →
      related first third) {first second third : List α}
    (one : List.Forall₂ related first second) (other : List.Forall₂ related second third) :
    List.Forall₂ related first third := by
  induction one generalizing third with
  | nil => exact other
  | cons here _ ih =>
    cases other with
    | cons there rest => exact .cons (trans here there) (ih rest)

private theorem program_shortens_trans {first second third : Program} (one : first.Shortens second)
    (other : second.Shortens third) : first.Shortens third := by
  refine forall₂_trans (fun one other => ⟨other.order.trans one.order,
    other.opcode.trans one.opcode, ?_⟩) one other
  exact forall₂_trans (fun one other => ⟨other.kind.trans one.kind, other.text.trans one.text⟩)
    one.args other.args

private theorem forall₂_modify {α : Type} {related : α → α → Prop}
    (self : ∀ item, related item item)
    {items : List α} {index : Nat} {item : α} {change : α → α} (held : items[index]? = some item)
    (changed : related item (change item)) :
    List.Forall₂ related items (items.modify index change) := by
  induction items generalizing index with
  | nil => simp at held
  | cons first rest ih =>
    cases index with
    | zero =>
      cases held
      exact .cons changed (List.forall₂_same.mpr fun item _ => self item)
    | succ index => exact .cons (self first) (ih held)

private theorem modify_self {α : Type} {items : List α} {index : Nat} {item : α} {change : α → α}
    (held : items[index]? = some item) (same : change item = item) :
    items.modify index change = items := by
  induction items generalizing index with
  | nil => simp at held
  | cons first rest ih =>
    cases index with
    | zero =>
      cases held
      exact congrArg (· :: rest) same
    | succ index => exact congrArg (first :: ·) (ih held)

/-- An argument of a program, by the positions of its instruction and of itself. -/
def ArgumentAt (program : Program) (position index : Nat) (arg : Argument) : Prop :=
  ∃ instr, program.instructions[position]? = some instr ∧ instr.args[index]? = some arg

private theorem withText_self {program : Program} {position index : Nat} {arg : Argument}
    (held : ArgumentAt program position index arg) :
    program.withText position index arg.text = program := by
  obtain ⟨instr, inProgram, inInstr⟩ := held
  have same : instr.withText index arg.text = instr := by
    rw [Instruction.withText, modify_self inInstr rfl]
  rw [Program.withText, modify_self inProgram same]

private theorem withText_shortens {program : Program} {position index : Nat} {arg : Argument}
    {text : String} (held : ArgumentAt program position index arg)
    (starts : text.toList <+: arg.text.toList) :
    program.Shortens (program.withText position index text) := by
  obtain ⟨instr, inProgram, inInstr⟩ := held
  have changed : instr.Shortens (instr.withText index text) :=
    ⟨rfl, rfl, forall₂_modify argument_shortens_self inInstr ⟨rfl, starts⟩⟩
  exact forall₂_modify instruction_shortens_self inProgram changed

/-! ## Asides in documents -/

private theorem startText_unlined (element : Unfinished) :
    startText element.unlined = startText element := by
  rw [startText, startText, Unfinished.unlined, ← List.map_reverse]
  cases element.children.reverse with
  | nil => rfl
  | cons first rest => cases first <;> simp [leadOf]

private theorem length_elements_unlined (element : Unfinished) :
    (elementsOf element.unlined.children.reverse).length = (elementsOf element.children).length := by
  rw [Unfinished.unlined, ← List.map_reverse, elementsOf_unlined, List.length_map, elementsOf,
    List.filterMap_reverse, List.length_reverse]
  rfl

/-- Behind an aside the text at the start stays, whatever is added. -/
theorem startText_grown {start other first second : Unfinished}
    (grown : Grown start other first second) (held : .gap ∈ start.children) :
    .gap ∈ first.children ∧ startText first = startText start := by
  induction grown with
  | start => exact ⟨held, rfl⟩
  | gap grown ih =>
    rw [startText_add _ rfl]
    exact ⟨List.mem_cons_self, ih.2⟩
  | text grown line content ih =>
    rw [startText_behind ih.1]
    exact ⟨gap_addText_iff.mpr ih.1, ih.2⟩
  | child grown inner ih =>
    rw [startText_add _ rfl]
    exact ⟨List.mem_cons_of_mem _ ih.1, ih.2⟩

private theorem startText_parted {element start other : Unfinished}
    (parted : Parted element start other)
    (held : .gap ∈ element.children) :
    .gap ∈ start.children ∧ startText start = startText element := by
  cases parted with
  | beside => exact ⟨held, rfl⟩
  | @within inner first second whole joins =>
    have before : .gap ∈ inner.children := gap_addText_iff.mp held
    rw [startText_behind before, startText_behind before]
    exact ⟨gap_addText_iff.mpr before, rfl⟩

/-- The program of a document once an aside is put in at a place. In an argument the text
that is there before the place is left, and everywhere else nothing changes. -/
def withAside {text : List Char} (place : Xml.Place text) (program : Program) : Program :=
  match place.outer with
  | [_, root] =>
    match argumentNumber? place.element.name.base with
    | some number => program.withText (elementsOf root.children).length (number - 1)
        (Text.trimmed (startText place.element))
    | none => program
  | _ => program

/-- A place where an aside changes no text: it is in no argument, or at the end of one, or
behind another aside in it. -/
def Harmless {text : List Char} (place : Xml.Place text) : Prop :=
  place.outer.length = 2 → place.AtEnd ∨ .gap ∈ place.element.children

/-- In a program with an aside in an argument, the text of the argument is the one that was
there before. -/
theorem isProgram_cut {before earlier : List Element} {instruction instruction' root root' : Element}
    {kept : String} {first second : Unfinished} {program : Program}
    (inRoot : Holding before instruction instruction' root root')
    (inInstruction : Holding earlier (.ofOpen first) (.ofOpen second) instruction instruction')
    (marked : Marked kept first second) (fitting : IsProgram Lenient root program) :
    ∃ number arg, argumentNumber? first.name.base = some number ∧
      ArgumentAt program before.length (number - 1) arg ∧
      arg.text = Text.trimmed (startText first) ∧
      IsProgram Lenient root' (program.withText before.length (number - 1) (Text.trimmed kept)) := by
  obtain ⟨instr, held, fit, replace⟩ := isProgram_holding inRoot inInstruction.name fitting
  obtain ⟨number, arg, lenient, counted, place, argument, change⟩ :=
    isInstruction_holding inInstruction marked.name fit
  have few : number ≤ maxArguments := by
    have inside := (List.getElem?_eq_some_iff.mp place).1
    have most := arity_le_maxArguments instr.opcode
    rw [fit.count] at inside
    omega
  refine ⟨number, arg, argumentNumber_some_iff.mpr ⟨lenient, counted, few⟩, ⟨instr, held, place⟩,
    ?_, ?_⟩
  · rw [argument.text, leadingText_eq]
    rfl
  · exact replace _ (change _ (isArgument_marked marked argument))

/-- A document with an aside put in is read as a program again, with at most one text cut. -/
theorem read_insert {text : String} {program : Program} (known : read text = .ok program)
    (place : Xml.Place text.toList) {aside : Xml.Chunk} (proper : Xml.IsAside aside) :
    read (String.ofList (place.insert aside)) = .ok (withAside place program) ∧
      (Harmless place → withAside place program = program) ∧
      program.Shortens (withAside place program) := by
  obtain ⟨node, found⟩ := reading_of_read known
  obtain ⟨start, other, first, second, left, right, parted, grown, atEnd, enclosed, rfl,
    inserted⟩ := Xml.insert_enclosed place proper found
  have marked := marked_of_grown (marked_of_parted parted) grown
  have fitting := (read_ok_iff found).mp known
  have shallow := not_nested_of_program fitting
  rw [← @String.toList_ofList (place.insert aside)] at inserted
  rw [read_ok_iff inserted, withAside, Harmless]
  obtain ⟨before, after, whole, element, outer, opened⟩ := place
  match outer with
  | [] =>
    obtain ⟨rfl, rfl⟩ := enclosed
    exact ⟨isProgram_marked marked fitting, fun _ => rfl, program_shortens_self program⟩
  | [root] =>
    obtain ⟨inner, other, grownToo, rfl, rfl⟩ := enclosed
    obtain ⟨instr, held, instruction, replace⟩ :=
      isProgram_holding (holding_of_grown grownToo) marked.name fitting
    have same := replace id (isInstruction_marked marked instruction)
    rw [modify_self held rfl] at same
    exact ⟨same, fun _ => rfl, program_shortens_self program⟩
  | [instruction, root] =>
    obtain ⟨inner, inner', grownToo, outermost, outermost', grownLast, rfl, rfl⟩ := enclosed
    obtain ⟨number, arg, numbered, held, spelled, cut⟩ :=
      isProgram_cut (holding_of_grown grownLast) (holding_of_grown grownToo) marked fitting
    have named : first.name.base = element.name.base :=
      congrArg Xml.Name.base (grown.kept.1.trans parted.kept.1).name
    rw [length_elements_unlined] at held cut
    rw [startText_unlined] at cut
    rw [named] at numbered
    simp only [numbered]
    refine ⟨cut, fun harmless => ?_, withText_shortens held ?_⟩
    · have whole : startText first = startText element := by
        rw [← startText_unlined element]
        rcases harmless rfl with ends | behind
        · rw [atEnd ends]
        · have inside : .gap ∈ element.unlined.children :=
            List.mem_map.mpr ⟨.gap, behind, by simp⟩
          obtain ⟨still, same⟩ := startText_parted parted inside
          rw [(startText_grown grown still).2, same]
      rw [← whole, ← spelled]
      exact withText_self held
    · have begins := marked.begins.trim
      rw [startText_unlined] at begins
      rw [spelled, Text.trimmed, Text.trimmed, String.toList_ofList, String.toList_ofList]
      exact begins
  | _ :: _ :: _ :: deeper =>
    have nested := @nested_of_enclosed _ _ _ _ _ 0 trivial enclosed
    exact absurd (nested_of_le (by simp) nested) shallow

/-- An aside is put into a document, somewhere in the content of an element. -/
def Inserted (text other : String) : Prop :=
  ∃ (place : Xml.Place text.toList) (aside : Xml.Chunk), Xml.IsAside aside ∧
    other = String.ofList (place.insert aside)

/-- An aside is put into a document where it changes no text. -/
def HarmlesslyInserted (text other : String) : Prop :=
  ∃ (place : Xml.Place text.toList) (aside : Xml.Chunk), Xml.IsAside aside ∧ Harmless place ∧
    other = String.ofList (place.insert aside)

/-- What asides do to the program of a document. One aside leaves the program as it is, but in
an argument it leaves no more of the text than what stands before it. So any number of them
leave the program as it is, provided that each stands outside of all arguments, at the end of
one or behind another aside in one. Wherever else they stand, the document can still be read,
and the program that it holds is the same but for arguments that have lost the end of their
text. -/
theorem asides_cut_arguments {text : String} {program : Program}
    (known : read text = .ok program) :
    (∀ (place : Xml.Place text.toList) (aside : Xml.Chunk), Xml.IsAside aside →
      read (String.ofList (place.insert aside)) = .ok (withAside place program)) ∧
    (∀ other, Relation.ReflTransGen HarmlesslyInserted text other → read other = .ok program) ∧
    ∀ other, Relation.ReflTransGen Inserted text other →
      ∃ cut, read other = .ok cut ∧ program.Shortens cut := by
  refine ⟨fun place aside proper => (read_insert known place proper).1, ?_, ?_⟩
  · intro other steps
    induction steps with
    | refl => exact known
    | tail _ step ih =>
      obtain ⟨place, aside, proper, harmless, rfl⟩ := step
      obtain ⟨again, same, _⟩ := read_insert ih place proper
      rw [again, same harmless]
  · intro other steps
    induction steps with
    | refl => exact ⟨program, known, program_shortens_self program⟩
    | tail _ step ih =>
      obtain ⟨place, aside, proper, rfl⟩ := step
      obtain ⟨cut, readCut, shortens⟩ := ih
      obtain ⟨again, _, further⟩ := read_insert readCut place proper
      exact ⟨_, again, program_shortens_trans shortens further⟩

/-- The start of a document, up to some place in the text of an argument. -/
def wordStart : String :=
  "<program language=\"IPPcode24\"><instruction order=\"1\" opcode=\"WRITE\">" ++
    "<arg1 type=\"string\">ab"

/-- The rest of the document. -/
def wordEnd : String := "cd</arg1></instruction></program>"

/-- The program of the document, with some text in its argument. -/
def wordProgram (text : String) : Program := ⟨[⟨1, .write, [⟨.literal .string, text⟩]⟩]⟩

/-- The elements that are open between the two parts: the name of each, the text that it
starts with, and the number of elements in it. -/
theorem word_opened :
    (Xml.reading? wordStart.toList).map (fun reading => reading.path.map fun element =>
        (element.name.base, startText element, (elementsOf element.children).length)) =
      some [("arg1", "ab", 0), ("instruction", "", 0), ("program", "", 0)] := by
  decide +kernel

private theorem word_read :
    read (wordStart ++ wordEnd) = .ok (wordProgram "abcd") := by decide +kernel

/-- The place between the two parts is in the argument, behind the start of its text. -/
theorem word_place : ∃ place : Xml.Place (wordStart ++ wordEnd).toList,
    place.before = wordStart.toList ∧ place.after = wordEnd.toList ∧
    ∀ program, withAside place program = program.withText 0 0 "ab" := by
  obtain ⟨reading, found, named⟩ := Option.map_eq_some_iff.mp word_opened
  simp only [List.map_eq_cons_iff, List.map_eq_nil_iff, Prod.mk.injEq] at named
  obtain ⟨argument, _, path, ⟨name, starts, _⟩, instruction, _, rfl, _, root, _, rfl,
    ⟨_, _, first⟩, rfl⟩ := named
  have opened : (Xml.reading? wordStart.toList).map Reading.path =
      some [argument, instruction, root] := by
    rw [found, Option.map_some, path]
  refine ⟨⟨_, _, String.toList_append, argument, [instruction, root], opened⟩, rfl, rfl, ?_⟩
  intro program
  have number : argumentNumber? "arg1" = some 1 := by decide +kernel
  have trimmed : Text.trimmed "ab" = "ab" := by decide +kernel
  simp only [withAside, name, number, starts, first, trimmed]

/-- A comment to put there. -/
def remark : Xml.Chunk := .comment [' ', 'c', ' ']

private theorem remark_aside : Xml.IsAside remark := .comment (by decide)

theorem word_cut_by_remark :
    ∃ place : Xml.Place (wordStart ++ wordEnd).toList,
      place.insert remark = (wordStart ++ "<!-- c -->" ++ wordEnd).toList ∧
      read (wordStart ++ wordEnd) = .ok (wordProgram "abcd") ∧
      read (wordStart ++ "<!-- c -->" ++ wordEnd) = .ok (wordProgram "ab") := by
  obtain ⟨place, before, after, effect⟩ := word_place
  have inserted : place.insert remark = (wordStart ++ "<!-- c -->" ++ wordEnd).toList := by
    rw [Xml.Place.insert, before, after, String.toList_append, String.toList_append,
      List.append_assoc]
    rfl
  have known := (asides_cut_arguments word_read).1 place remark remark_aside
  rw [inserted, String.ofList_toList, effect] at known
  exact ⟨place, inserted, word_read, known⟩

theorem remark_changes_program :
    ∃ text other program, read text = .ok program ∧ Inserted text other ∧
      read other ≠ .ok program := by
  obtain ⟨place, _, _, effect⟩ := word_place
  refine ⟨wordStart ++ wordEnd, _, wordProgram "abcd", word_read,
    ⟨place, remark, remark_aside, rfl⟩, ?_⟩
  rw [(read_insert word_read place remark_aside).1, effect]
  decide

end Interchange

end Framecode
