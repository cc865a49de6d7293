import Framecode.Proofs.Source.Grammar
import Mathlib.Data.List.Forall2

/-! Which source texts are programs, and what is wrong with the others. The lines that
count are given by the list library alone: the pieces between line feeds that hold a
word before any number sign. Assembling succeeds exactly when they are a header and
instructions, and otherwise reports the first line that is not. -/
namespace Framecode.Source

/-! ## The lines of a text -/

/-- The words of a line: what stands before its first number sign, cut at blanks. -/
def tokens (line : List Char) : List String :=
  (((line.takeWhile (· != '#')).splitOnP Text.isBlank).filter (!·.isEmpty)).map String.ofList

/-- A piece of a text that holds a word, with its number. -/
def spelledLine? (piece : List Char × Nat) : Option Line :=
  if tokens piece.1 = [] then none else some ⟨piece.2, tokens piece.1⟩

/-- The pieces of a text between line feeds that hold a word, numbered from one. -/
def spelledLines (text : String) : List Line :=
  ((text.toList.splitOn '\n').zipIdx 1).filterMap spelledLine?

/-- The number of lines of a text. A line feed at its end starts no further line. -/
def lineCount (text : String) : Nat :=
  let pieces := text.toList.splitOn '\n'
  if pieces.getLast? = some [] then pieces.length - 1 else pieces.length

theorem wordsOf_eq_tokens (line : List Char) : wordsOf line = tokens line := by
  rw [wordsOf, Text.words_eq_filter, tokens]

private theorem wordsOf_append_return (line : List Char) :
    wordsOf (line ++ ['\r']) = wordsOf line := by
  simp only [wordsOf, List.takeWhile_append]
  split
  · rename_i whole
    have uncommented := (List.takeWhile_prefix (· != '#')).eq_of_length whole
    rw [List.takeWhile_cons_of_pos (by decide), List.takeWhile_nil,
      Text.words_append_blank (by decide), Text.words_nil, List.append_nil, uncommented]
  · rfl

private theorem spelledLine_dropReturn (piece : List Char × Nat) :
    spelledLine? (Text.dropReturn piece.1, piece.2) = spelledLine? piece := by
  have same : tokens (Text.dropReturn piece.1) = tokens piece.1 := by
    rcases Text.dropReturn_cases piece.1 with same | ends
    · rw [same]
    · rw [← wordsOf_eq_tokens, ← wordsOf_eq_tokens, ← wordsOf_append_return, ← ends]
  simp only [spelledLine?, same]

private theorem numberLines_spelled (start : Nat) (lines : List (List Char)) :
    (numberLines start lines).filter (!·.words.isEmpty) =
      (lines.zipIdx start).filterMap spelledLine? := by
  induction lines generalizing start with
  | nil => rfl
  | cons line rest ih =>
    rw [numberLines, List.zipIdx_cons, wordsOf_eq_tokens, List.filterMap_cons, ← ih]
    by_cases blank : tokens line = []
    · simp [spelledLine?, blank]
    · simp [spelledLine?, blank]

/-- The lines that are read are the ones that hold a word, under their numbers. -/
theorem meaningful_eq_spelled (text : String) :
    meaningfulLines (Text.lines text.toList) = spelledLines text := by
  obtain ⟨closed, last, pieces, lines⟩ := Text.lines_eq_pieces text.toList
  have before : ((closed.map Text.dropReturn).zipIdx 1).filterMap spelledLine? =
      (closed.zipIdx 1).filterMap spelledLine? := by
    rw [List.zipIdx_map, List.filterMap_map]
    exact congrArg (List.filterMap · _) (funext spelledLine_dropReturn)
  rw [meaningfulLines, numberLines_spelled, spelledLines, pieces, lines, List.zipIdx_append,
    List.zipIdx_append, List.filterMap_append, List.filterMap_append, before, List.length_map]
  split
  · rename_i empty
    rw [empty]
    rfl
  · rfl

private theorem lines_length (text : String) :
    (Text.lines text.toList).length = lineCount text := by
  obtain ⟨closed, last, pieces, lines⟩ := Text.lines_eq_pieces text.toList
  simp only [lineCount, pieces, lines, List.getLast?_concat, Option.some.injEq]
  split <;> simp

/-- Every word of a line is not empty and holds neither a blank nor a number sign. -/
theorem mem_spelledLines {text : String} {line : Line} (member : line ∈ spelledLines text) :
    line.words ≠ [] ∧ ∀ word ∈ line.words, word.toList ≠ [] ∧
      ∀ c ∈ word.toList, Text.isBlank c = false ∧ c ≠ '#' := by
  obtain ⟨piece, _, spelled⟩ := List.mem_filterMap.mp member
  unfold spelledLine? at spelled
  split at spelled
  · cases spelled
  · rename_i filled
    cases spelled
    refine ⟨filled, fun word held => ?_⟩
    rw [← wordsOf_eq_tokens, wordsOf, List.mem_map] at held
    obtain ⟨letters, held, rfl⟩ := held
    obtain ⟨nonempty, unbroken⟩ := Text.mem_words held
    rw [String.toList_ofList]
    refine ⟨nonempty, fun c inside => ⟨(unbroken c inside).1, ?_⟩⟩
    simpa using List.all_eq_true.mp List.all_takeWhile c (unbroken c inside).2

/-! ## Reading lines -/

/-- A line is an instruction of the language. -/
def InstructionLine (line : Line) : Prop := ∃ opcode args, Instructs line.words opcode args

/-- A line is the header: one word, in any ASCII case. -/
def HeaderLine (line : Line) : Prop := ∃ word, line.words = [word] ∧ isHeader word = true

/-- Lines are read exactly when each of them is an instruction. -/
theorem lines_ok_iff {lines : List Line} {sequence : List (Opcode × List Argument)} :
    readLines lines = .ok sequence ↔
      List.Forall₂ (fun line instr => Instructs line.words instr.1 instr.2) lines sequence := by
  induction lines generalizing sequence with
  | nil => simp [readLines, eq_comm]
  | cons line rest ih =>
    constructor
    · intro read
      rw [readLines] at read
      split at read
      · cases read
      · rename_i instr first
        split at read
        · cases read
        · rename_i others following
          cases read
          exact .cons (words_ok_iff.mp first) (ih.mp following)
    · rintro ⟨⟩
      rename_i instr others first following
      rw [readLines, words_ok_iff.mpr first]
      simp only [ih.mpr following]

/-- Lines that are all instructions are read as some sequence. -/
theorem lines_read {lines : List Line} (instructions : ∀ line ∈ lines, InstructionLine line) :
    ∃ sequence, List.Forall₂ (fun line (instr : Opcode × List Argument) =>
      Instructs line.words instr.1 instr.2) lines sequence := by
  induction lines with
  | nil => exact ⟨[], .nil⟩
  | cons line rest ih =>
    obtain ⟨opcode, args, first⟩ := instructions line List.mem_cons_self
    obtain ⟨sequence, others⟩ := ih fun later member =>
      instructions later (List.mem_cons_of_mem _ member)
    exact ⟨(opcode, args) :: sequence, .cons first others⟩

/-- Lines are refused at the first one that offends, all before it being instructions. -/
theorem lines_error_iff {lines : List Line} {error : Error}
    (filled : ∀ line ∈ lines, line.words ≠ []) :
    readLines lines = .error error ↔ ∃ before line following, lines = before ++ line :: following ∧
      (∀ earlier ∈ before, InstructionLine earlier) ∧ error.line = line.number ∧
      Offends line.words error.problem := by
  induction lines with
  | nil => simp [readLines]
  | cons line rest ih =>
    have tail := ih fun later member => filled later (List.mem_cons_of_mem _ member)
    have words := filled line List.mem_cons_self
    constructor
    · intro refused
      rw [readLines] at refused
      split at refused
      · rename_i problem first
        cases refused
        exact ⟨[], line, rest, rfl, by simp, rfl, (words_error_iff words).mp first⟩
      · rename_i instr first
        split at refused
        · rename_i found following
          cases refused
          obtain ⟨before, wrong, after, rfl, sound, number, offends⟩ := tail.mp following
          refine ⟨line :: before, wrong, after, rfl, ?_, number, offends⟩
          intro earlier member
          rcases List.mem_cons.mp member with rfl | member
          · exact ⟨instr.1, instr.2, words_ok_iff.mp first⟩
          · exact sound earlier member
        · cases refused
    · rintro ⟨before, wrong, after, whole, sound, number, offends⟩
      cases before with
      | nil =>
        cases whole
        rw [readLines, (words_error_iff words).mpr offends]
        exact congrArg Except.error (by rw [← number])
      | cons first before =>
        cases whole
        obtain ⟨opcode, args, instructs⟩ := sound line List.mem_cons_self
        have following := tail.mpr ⟨before, wrong, after, rfl,
          fun earlier member => sound earlier (List.mem_cons_of_mem _ member), number, offends⟩
        rw [readLines, words_ok_iff.mpr instructs]
        simp only [following]

/-- A numbered sequence has its items in place, under consecutive orders. -/
theorem number_getElem (start index : Nat) (sequence : List (Opcode × List Argument)) :
    (Program.number start sequence)[index]? = sequence[index]?.map fun item =>
      ⟨UInt32.ofNat (start + index), item.1, item.2⟩ := by
  induction sequence generalizing start index with
  | nil => rfl
  | cons item rest ih =>
    cases index with
    | zero => rfl
    | succ index =>
      rw [Program.number, List.getElem?_cons_succ, List.getElem?_cons_succ, ih]
      rw [show start + 1 + index = start + (index + 1) by omega]

theorem number_length (start : Nat) (sequence : List (Opcode × List Argument)) :
    (Program.number start sequence).length = sequence.length := by
  induction sequence generalizing start with
  | nil => rfl
  | cons item rest ih => rw [Program.number, List.length_cons, List.length_cons, ih]

/-! ## Reading texts -/

/-- A text of the language: its first line that counts is the header, and every later
one is an instruction. -/
def InLanguage (text : String) : Prop :=
  ∃ head rest, spelledLines text = head :: rest ∧ HeaderLine head ∧
    ∀ line ∈ rest, InstructionLine line

/-- The program that a text of the language spells: one instruction for every line
after the header, in order and numbered from one, with the arguments that the words
of the line spell. -/
def SpelledProgram (text : String) (program : Program) : Prop :=
  ∃ head rest, spelledLines text = head :: rest ∧ HeaderLine head ∧
    program.instructions.length = rest.length ∧
    ∀ index line instr, rest[index]? = some line → program.instructions[index]? = some instr →
      instr.order.toNat = index + 1 ∧ Instructs line.words instr.opcode instr.args

/-- The first fault of a text. The header is missed on the first line that counts or,
when no line does, on the last line there is; then the first line that is no
instruction is at fault. -/
inductive FirstFault (text : String) : Error → Prop where
  | empty (nothing : spelledLines text = []) :
      FirstFault text ⟨max 1 (lineCount text), .missingHeader⟩
  | header {head : Line} {rest : List Line} (found : spelledLines text = head :: rest)
      (headless : ¬ HeaderLine head) : FirstFault text ⟨head.number, .missingHeader⟩
  | line {head line : Line} {before following : List Line} {problem : Problem}
      (found : spelledLines text = head :: (before ++ line :: following))
      (headed : HeaderLine head) (sound : ∀ earlier ∈ before, InstructionLine earlier)
      (offends : Offends line.words problem) : FirstFault text ⟨line.number, problem⟩

private theorem assemble_empty {text : String} (nothing : spelledLines text = []) :
    assemble text = .error ⟨max 1 (lineCount text), .missingHeader⟩ := by
  rw [assemble, assembleLines, meaningful_eq_spelled, nothing, lines_length]

private theorem assemble_headless {text : String} {head : Line} {rest : List Line}
    (found : spelledLines text = head :: rest) (headless : ¬ HeaderLine head) :
    assemble text = .error ⟨head.number, .missingHeader⟩ := by
  rw [assemble, assembleLines, meaningful_eq_spelled, found]
  simp only
  split
  · rename_i word single
    rw [if_neg fun header => headless ⟨word, single, header⟩]
  · rfl

private theorem assemble_headed {text : String} {head : Line} {rest : List Line}
    (found : spelledLines text = head :: rest) (headed : HeaderLine head) :
    assemble text = (readLines rest).map Program.ofSequence := by
  obtain ⟨word, single, header⟩ := headed
  rw [assemble, assembleLines, meaningful_eq_spelled, found]
  simp only [single, header, ↓reduceIte]

/-- What a line of an assembled text spells becomes the instruction in its place. -/
theorem spelled_of_sequence {lines : List Line} {sequence : List (Opcode × List Argument)}
    (few : lines.length < UInt32.size)
    (read : List.Forall₂ (fun line instr => Instructs line.words instr.1 instr.2) lines sequence) :
    (Program.ofSequence sequence).instructions.length = lines.length ∧
      ∀ index line instr, lines[index]? = some line →
        (Program.ofSequence sequence).instructions[index]? = some instr →
        instr.order.toNat = index + 1 ∧ Instructs line.words instr.opcode instr.args := by
  refine ⟨(number_length 1 sequence).trans read.length_eq.symm, ?_⟩
  intro index line instr held placed
  rw [Program.ofSequence, number_getElem] at placed
  obtain ⟨item, itemHeld, rfl⟩ := Option.map_eq_some_iff.mp placed
  obtain ⟨inside, rfl⟩ := List.getElem?_eq_some_iff.mp held
  obtain ⟨itemInside, rfl⟩ := List.getElem?_eq_some_iff.mp itemHeld
  refine ⟨?_, (List.forall₂_iff_get.mp read).2 index inside itemInside⟩
  simp only [UInt32.toNat_ofNat']
  rw [Nat.mod_eq_of_lt (by simp only [UInt32.size] at few; omega)]
  omega

/-- A program whose instructions are spelled line by line is the numbered sequence of
what the lines spell. -/
theorem sequence_of_spelled {lines : List Line} {program : Program}
    (counted : program.instructions.length = lines.length)
    (spelled : ∀ index line instr, lines[index]? = some line →
      program.instructions[index]? = some instr →
      instr.order.toNat = index + 1 ∧ Instructs line.words instr.opcode instr.args) :
    ∃ sequence, Program.ofSequence sequence = program ∧
      List.Forall₂ (fun line instr => Instructs line.words instr.1 instr.2) lines sequence := by
  refine ⟨program.instructions.map fun instr => (instr.opcode, instr.args), ?_, ?_⟩
  · suffices same : Program.number 1 (program.instructions.map fun instr =>
        (instr.opcode, instr.args)) = program.instructions by rw [Program.ofSequence, same]
    apply List.ext_getElem?
    intro index
    rw [number_getElem, List.getElem?_map]
    cases held : program.instructions[index]? with
    | none => rfl
    | some instr =>
      have inside := (List.getElem?_eq_some_iff.mp held).1
      have number := (spelled index (lines[index]) instr
        (List.getElem?_eq_getElem (by omega)) held).1
      have order : UInt32.ofNat (1 + index) = instr.order := by
        rw [Nat.add_comm, ← number, UInt32.ofNat_toNat]
      simp only [Option.map_some, order]
  · apply List.forall₂_iff_get.mpr
    refine ⟨by rw [List.length_map, counted], fun index inside mapped => ?_⟩
    simp only [List.length_map] at mapped
    have both := spelled index (lines[index]) (program.instructions[index])
      (List.getElem?_eq_getElem inside) (List.getElem?_eq_getElem mapped)
    simpa using both.2

/-- Whatever is assembled has a header and one instruction for every later line. -/
theorem assembled_sequence {text : String} {program : Program} (assembled : assemble text = .ok program) :
    ∃ head rest sequence, spelledLines text = head :: rest ∧ HeaderLine head ∧
      program = Program.ofSequence sequence ∧
      List.Forall₂ (fun line (instr : Opcode × List Argument) =>
        Instructs line.words instr.1 instr.2) rest sequence := by
  cases found : spelledLines text with
  | nil => rw [assemble_empty found] at assembled; cases assembled
  | cons head rest =>
    by_cases headed : HeaderLine head
    · rw [assemble_headed found headed] at assembled
      cases read : readLines rest with
      | error error => rw [read] at assembled; cases assembled
      | ok sequence =>
        rw [read] at assembled
        cases assembled
        exact ⟨head, rest, sequence, rfl, headed, rfl, lines_ok_iff.mp read⟩
    · rw [assemble_headless found headed] at assembled
      cases assembled

/-- Assembling a text with a number of instruction lines that fits into an order gives
a program exactly when the text spells that program. -/
theorem assemble_ok_iff {text : String} {program : Program}
    (few : (spelledLines text).tail.length < UInt32.size) :
    assemble text = .ok program ↔ SpelledProgram text program := by
  constructor
  · intro assembled
    obtain ⟨head, rest, sequence, found, headed, rfl, read⟩ := assembled_sequence assembled
    rw [found] at few
    exact ⟨head, rest, found, headed, spelled_of_sequence few read⟩
  · rintro ⟨head, rest, found, headed, counted, spelled⟩
    obtain ⟨sequence, rfl, read⟩ := sequence_of_spelled counted spelled
    rw [assemble_headed found headed, lines_ok_iff.mpr read]
    rfl

/-- Assembling fails exactly with the first fault of the text. -/
theorem assemble_error_iff {text : String} {error : Error} :
    assemble text = .error error ↔ FirstFault text error := by
  constructor
  · intro refused
    cases found : spelledLines text with
    | nil =>
      rw [assemble_empty found] at refused
      cases refused
      exact .empty found
    | cons head rest =>
      have filled : ∀ line ∈ rest, line.words ≠ [] := fun line member =>
        (mem_spelledLines (found ▸ List.mem_cons_of_mem _ member)).1
      by_cases headed : HeaderLine head
      · rw [assemble_headed found headed] at refused
        cases read : readLines rest with
        | ok sequence => rw [read] at refused; cases refused
        | error reason =>
          rw [read] at refused
          cases refused
          obtain ⟨before, line, following, rfl, sound, number, offends⟩ :=
            (lines_error_iff filled).mp read
          obtain ⟨_, problem⟩ := error
          cases number
          exact .line found headed sound offends
      · rw [assemble_headless found headed] at refused
        cases refused
        exact .header found headed
  · intro fault
    cases fault with
    | empty nothing => exact assemble_empty nothing
    | header found headless => exact assemble_headless found headless
    | @line head line before following problem found headed sound offends =>
      have filled : ∀ other ∈ before ++ line :: following, other.words ≠ [] := by
        intro other member
        have held : other ∈ spelledLines text := by
          rw [found]
          exact List.mem_cons_of_mem head member
        exact (mem_spelledLines held).1
      have read := (@lines_error_iff _ ⟨line.number, problem⟩ filled).mpr
        ⟨before, line, following, rfl, sound, rfl, offends⟩
      rw [assemble_headed found headed, read]
      rfl

/-- What a word spells is of a kind that its position takes. -/
theorem spells_accepted {shape : Shape} {word : String} {arg : Argument}
    (spelled : Spells shape word arg) : shape.accepts arg.kind = true := by
  cases spelled <;> rfl

/-- The words of an instruction line make a well formed instruction, under any order. -/
theorem instructs_well_formed {words : List String} {opcode : Opcode} {args : List Argument}
    (instructs : Instructs words opcode args) (order : UInt32) :
    (Instruction.mk order opcode args).isWellFormed = true := by
  obtain ⟨_, _, _, _, spelled⟩ := instructs
  have accepted : ∀ {shapes words args}, SpellsAll shapes words args →
      (shapes.zip args).all (fun pair => pair.1.accepts pair.2.kind) = true := by
    intro shapes words args spelled
    induction spelled with
    | nil => rfl
    | cons first _ ih =>
      rw [List.zip_cons_cons, List.all_cons, spells_accepted first, ih]
      rfl
  simp only [Instruction.isWellFormed, Opcode.arity, spelled.length.2, BEq.rfl, Bool.true_and]
  exact accepted spelled

/-- A text is assembled exactly when it is in the language, and then to the program it
spells, every instruction of which is well formed. Any other text is refused with its
first fault. -/
theorem assemble_exact {text : String} (few : (spelledLines text).tail.length < UInt32.size) :
    ((∃ program, assemble text = .ok program) ↔ InLanguage text) ∧
    (∀ program, assemble text = .ok program ↔ SpelledProgram text program) ∧
    (∀ program, assemble text = .ok program →
      ∀ instr ∈ program.instructions, instr.isWellFormed = true) ∧
    (∀ error, assemble text = .error error ↔ FirstFault text error) := by
  refine ⟨⟨?_, ?_⟩, fun program => assemble_ok_iff few, ?_, fun error => assemble_error_iff⟩
  · rintro ⟨program, assembled⟩
    obtain ⟨head, rest, found, headed, counted, spelled⟩ := (assemble_ok_iff few).mp assembled
    refine ⟨head, rest, found, headed, fun line member => ?_⟩
    obtain ⟨index, inside, rfl⟩ := List.mem_iff_getElem.mp member
    have both := spelled index _ (program.instructions[index]) (List.getElem?_eq_getElem inside)
      (List.getElem?_eq_getElem (by omega))
    exact ⟨_, _, both.2⟩
  · rintro ⟨head, rest, found, headed, instructions⟩
    obtain ⟨sequence, read⟩ := lines_read instructions
    refine ⟨Program.ofSequence sequence, ?_⟩
    rw [assemble_headed found headed, lines_ok_iff.mpr read]
    rfl
  · intro program assembled instr member
    obtain ⟨head, rest, found, headed, counted, spelled⟩ := (assemble_ok_iff few).mp assembled
    obtain ⟨index, inside, rfl⟩ := List.mem_iff_getElem.mp member
    have both := spelled index (rest[index]) _ (List.getElem?_eq_getElem (by omega))
      (List.getElem?_eq_getElem inside)
    exact instructs_well_formed both.2 _

/-- A text with a blank line, comments and mixed case. -/
def commented : String := "\n.ippCODE24 # start\n\nlabel a#b\r\nWRITE string@\\065"

theorem assemble_exact_commented :
    (spelledLines commented).tail.length < UInt32.size ∧
    SpelledProgram commented ⟨[⟨1, .label, [⟨.label, "a"⟩]⟩,
      ⟨2, .write, [⟨.literal .string, "\\065"⟩]⟩]⟩ := by
  have few : (spelledLines commented).tail.length < UInt32.size := by decide +kernel
  have read : (assemble commented).toOption = some ⟨[⟨1, .label, [⟨.label, "a"⟩]⟩,
      ⟨2, .write, [⟨.literal .string, "\\065"⟩]⟩]⟩ := by decide +kernel
  refine ⟨few, ((assemble_exact few).2.1 _).mp ?_⟩
  cases result : assemble commented with
  | error error => rw [result] at read; cases read
  | ok program =>
    rw [result] at read
    cases read
    rfl

end Framecode.Source
