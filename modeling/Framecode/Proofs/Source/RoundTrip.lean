import Framecode.Proofs.Sorting
import Framecode.Proofs.Source.Acceptance
import Framecode.Proofs.Source.Separators
import Framecode.Source.Listing
import Mathlib.Data.List.TakeWhile

/-! Listings and what they are read as. A program comes back from its listing exactly
when it could have come from any source text at all: its orders count from one, its
instructions are well formed, and every argument is spelled as a word can spell it. -/
namespace Framecode.Source

/-- The texts that a word of a source line can give an argument. Strings are the only
literals whose text could hold a separator, and then no word spells them. -/
def InGrammar (arg : Argument) : Prop :=
  match arg.kind with
  | .var => VariableWord arg.text
  | .label => Identifier arg.text.toList
  | .typeName => ∃ type : ValueType, arg.text = type.name
  | .literal .string =>
    LiteralText .string arg.text ∧ ∀ c ∈ arg.text.toList, Text.isBlank c = false ∧ c ≠ '#'
  | .literal type => LiteralText type arg.text

/-- A word without separators gives its argument a text of the grammar. -/
theorem inGrammar_of_spells {shape : Shape} {word : String} {arg : Argument}
    (spelled : Spells shape word arg) (plain : ∀ c ∈ word.toList, Plain c) : InGrammar arg := by
  cases spelled with
  | varRef named => exact named
  | symbol named => exact named
  | @literal type text spelled =>
    cases type with
    | int | bool | nil => exact spelled
    | string =>
      refine ⟨spelled, fun c member => plain c ?_⟩
      rw [String.toList_append]
      exact List.mem_append_right _ member
  | label named => exact named
  | type type => exact ⟨type, rfl⟩

/-- An argument with a text of the grammar is spelled by its own display wherever its
kind is taken. -/
theorem spells_display {shape : Shape} {arg : Argument} (spelled : InGrammar arg)
    (accepted : shape.accepts arg.kind = true) : Spells shape arg.display arg := by
  obtain ⟨kind, text⟩ := arg
  cases kind with
  | var =>
    cases shape with
    | var => exact .varRef spelled
    | symb => exact .symbol spelled
    | label | type => cases accepted
  | label =>
    cases shape with
    | label => exact .label spelled
    | var | symb | type => cases accepted
  | typeName =>
    obtain ⟨type, rfl⟩ : ∃ type : ValueType, text = type.name := spelled
    cases shape with
    | type => exact .type type
    | var | symb | label => cases accepted
  | literal type =>
    have literal : LiteralText type text := by
      cases type with
      | int | bool | nil => exact spelled
      | string => exact spelled.1
    cases shape with
    | symb => exact .literal literal
    | var | label | type => cases accepted

private theorem display_plain {arg : Argument} (spelled : InGrammar arg) :
    PlainWord arg.display := by
  obtain ⟨kind, text⟩ := arg
  cases kind with
  | var => exact variable_plain spelled
  | label => exact identifier_plain spelled
  | typeName =>
    obtain ⟨type, rfl⟩ : ∃ type : ValueType, text = type.name := spelled
    exact type_name_word type
  | literal type =>
    refine marked_word_plain (type_name_word type) ?_
    by_cases string : type = .string
    · subst string
      exact spelled.2
    · refine literal_plain ?_ string
      cases type with
      | int | bool | nil => exact spelled
      | string => contradiction

/-- Words without separators, with one blank before each of them but the first, are the
words of that line, only that the empty ones are lost. -/
theorem tokens_of_spaced {first : String} {others : List String}
    (plain : ∀ word ∈ first :: others, ∀ c ∈ word.toList, Plain c) :
    tokens (first.toList ++ others.flatMap fun word => ' ' :: word.toList) =
      (first :: others).filter (· ≠ "") := by
  have uncommented : ∀ c ∈ first.toList ++ others.flatMap fun word => ' ' :: word.toList,
      (c != '#') = true := by
    intro c member
    rw [bne_iff_ne]
    rcases List.mem_append.mp member with inFirst | inOthers
    · exact (plain first List.mem_cons_self c inFirst).2
    · obtain ⟨word, held, inWord⟩ := List.mem_flatMap.mp inOthers
      rcases List.mem_cons.mp inWord with rfl | inside
      · decide
      · exact (plain word (List.mem_cons_of_mem _ held) c inside).2
  have spaced : (others.flatMap fun word => ' ' :: word.toList) =
      (others.map String.toList).flatMap (' ' :: ·) := by
    rw [List.flatMap_map]
  have split := @Text.words_of_spaced first.toList (others.map String.toList)
    (by simpa using fun word held c inside => (plain word held c inside).1)
  have kept : (fun piece : List Char => !piece.isEmpty) ∘ String.toList =
      fun word => decide (word ≠ "") := by
    funext word
    by_cases empty : word = "" <;> simp [empty]
  rw [← wordsOf_eq_tokens, wordsOf, List.takeWhile_eq_self_iff.mpr uncommented, spaced, split,
    ← List.map_cons, List.filter_map, kept]
  simp

/-- The words of a line that holds no number sign are its words. -/
theorem tokens_of_words {first : String} {others : List String}
    (plain : ∀ word ∈ first :: others, PlainWord word) :
    tokens (first.toList ++ others.flatMap fun word => ' ' :: word.toList) = first :: others := by
  rw [tokens_of_spaced fun word held => (plain word held).2, List.filter_eq_self]
  intro word held
  simpa using (plain word held).1

theorem instruction_display (instr : Instruction) :
    instr.display.toList = instr.opcode.mnemonic.toList ++
      (instr.args.map Argument.display).flatMap fun word => ' ' :: word.toList := by
  simp only [Instruction.display, String.toList_append, String.toList_join, List.flatMap_map]
  rfl

/-- A program that some source text could spell. -/
structure Listable (program : Program) : Prop where
  /-- The orders are one, two, three and so on, as the list has them. -/
  numbered : ∀ index instr, program.instructions[index]? = some instr →
    instr.order.toNat = index + 1
  /-- The arguments fit their opcodes. -/
  formed : ∀ instr ∈ program.instructions, instr.isWellFormed = true
  /-- Every argument has a text that a word can spell. -/
  spelled : ∀ instr ∈ program.instructions, ∀ arg ∈ instr.args, InGrammar arg

/-- Arguments with texts of the grammar, of the kinds that the positions take, are
spelled by their displays. -/
theorem spellsAll_display {shapes : List Shape} {args : List Argument}
    (counted : args.length = shapes.length)
    (accepted : (shapes.zip args).all (fun pair => pair.1.accepts pair.2.kind) = true)
    (spelled : ∀ arg ∈ args, InGrammar arg) :
    SpellsAll shapes (args.map Argument.display) args := by
  induction shapes generalizing args with
  | nil =>
    cases List.eq_nil_of_length_eq_zero counted
    exact .nil
  | cons shape shapes ih =>
    cases args with
    | nil => cases counted
    | cons arg args =>
      rw [List.zip_cons_cons, List.all_cons, Bool.and_eq_true] at accepted
      exact .cons (spells_display (spelled arg List.mem_cons_self) accepted.1)
        (ih (Nat.succ.inj counted) accepted.2 fun other member =>
          spelled other (List.mem_cons_of_mem _ member))

/-- The line of a well formed instruction in the grammar is read back as it. -/
theorem instructs_display {instr : Instruction} (formed : instr.isWellFormed = true)
    (spelled : ∀ arg ∈ instr.args, InGrammar arg) :
    tokens instr.display.toList = instr.opcode.mnemonic :: instr.args.map Argument.display ∧
      Instructs (tokens instr.display.toList) instr.opcode instr.args := by
  have words : tokens instr.display.toList =
      instr.opcode.mnemonic :: instr.args.map Argument.display := by
    rw [instruction_display]
    refine tokens_of_words fun word member => ?_
    rcases List.mem_cons.mp member with rfl | displayed
    · exact mnemonic_plain instr.opcode
    · obtain ⟨arg, held, rfl⟩ := List.mem_map.mp displayed
      exact display_plain (spelled arg held)
  rw [Instruction.isWellFormed, Bool.and_eq_true, beq_iff_eq] at formed
  refine ⟨words, instr.opcode.mnemonic, _, words, ?_, spellsAll_display formed.1 formed.2 spelled⟩
  simp [Text.sameWord]

/-- The line of an instruction holds no line feed if its arguments hold no separator. -/
theorem display_unbroken {instr : Instruction}
    (plain : ∀ arg ∈ instr.args, ∀ c ∈ arg.display.toList, Plain c) :
    '\n' ∉ instr.display.toList := by
  have breaks : ¬ Plain '\n' := by decide
  rw [instruction_display, List.mem_append, List.mem_flatMap]
  rintro (inMnemonic | ⟨word, held, inWord⟩)
  · exact breaks ((mnemonic_plain instr.opcode).2 _ inMnemonic)
  · obtain ⟨arg, member, rfl⟩ := List.mem_map.mp held
    rcases List.mem_cons.mp inWord with blank | inside
    · cases blank
    · exact breaks (plain arg member _ inside)

/-- Lines that each end in a line feed and hold no other are cut apart again, with an
empty piece behind the last one. -/
theorem splitOn_lines {lines : List (List Char)} (unbroken : ∀ line ∈ lines, '\n' ∉ line) :
    (lines.flatMap (· ++ ['\n'])).splitOn '\n' = lines ++ [[]] := by
  induction lines with
  | nil => rfl
  | cons line rest ih =>
    have later := ih fun other member => unbroken other (List.mem_cons_of_mem _ member)
    rw [List.flatMap_cons, List.append_assoc, List.singleton_append,
      List.splitOn_append_cons_self_of_not_mem (unbroken line List.mem_cons_self), later]
    rfl

/-- Lines that all hold a word all count. -/
theorem spelledLine_filled {start : Nat} {lines : List (List Char)}
    (filled : ∀ line ∈ lines, tokens line ≠ []) :
    (lines.zipIdx start).filterMap spelledLine? =
      (lines.zipIdx start).map fun piece => ⟨piece.2, tokens piece.1⟩ := by
  rw [← List.filterMap_eq_map]
  refine List.filterMap_congr fun piece member => ?_
  exact if_neg (filled piece.1 (List.fst_mem_of_mem_zipIdx member))

theorem sorted_of_numbered {program : Program}
    (numbered : ∀ index instr, program.instructions[index]? = some instr →
      instr.order.toNat = index + 1) : program.sorted = program.instructions := by
  refine sorted_eq_self_iff.mpr (List.pairwise_iff_getElem.mpr ?_)
  intro first second firstInside secondInside before
  have firstOrder := numbered first _ (List.getElem?_eq_getElem firstInside)
  have secondOrder := numbered second _ (List.getElem?_eq_getElem secondInside)
  rw [UInt32.le_iff_toNat_le]
  omega

/-- The lines of a listing in which no instruction breaks its line: the header, and every
instruction on a line of its own. -/
theorem spelledLines_of_unbroken {program : Program}
    (unbroken : ∀ instr ∈ program.sorted, '\n' ∉ instr.display.toList)
    (filled : ∀ instr ∈ program.sorted, tokens instr.display.toList ≠ []) :
    ∃ head, HeaderLine head ∧ spelledLines (listing program) = head ::
      ((program.sorted.map fun instr => instr.display.toList).zipIdx 2).map
        fun piece => ⟨piece.2, tokens piece.1⟩ := by
  have text : (listing program).toList = (header.toList ::
      program.sorted.map fun instr => instr.display.toList).flatMap (· ++ ['\n']) := by
    simp only [listing, String.toList_append, String.toList_join, List.flatMap_map,
      List.flatMap_cons, List.append_assoc]
    rfl
  have headerTokens : tokens header.toList = [header] := by
    simpa using @tokens_of_words header [] (by simpa using header_plain)
  have unbrokenLines : ∀ line ∈ header.toList :: program.sorted.map fun instr =>
      instr.display.toList, '\n' ∉ line := by
    refine List.forall_mem_cons.mpr ⟨by decide, ?_⟩
    simpa using unbroken
  have filledLines : ∀ line ∈ header.toList :: program.sorted.map fun instr =>
      instr.display.toList, tokens line ≠ [] := by
    refine List.forall_mem_cons.mpr ⟨by rw [headerTokens]; exact List.cons_ne_nil _ _, ?_⟩
    simpa using filled
  refine ⟨⟨1, [header]⟩, ⟨header, rfl, by decide⟩, ?_⟩
  rw [spelledLines, text, splitOn_lines unbrokenLines, List.zipIdx_append, List.filterMap_append,
    spelledLine_filled filledLines]
  simp only [List.zipIdx_cons, List.zipIdx_nil, List.map_cons, headerTokens]
  exact List.append_nil _

/-- The lines of the listing of a program that a text could spell. -/
theorem spelledLines_listing {program : Program} (listable : Listable program) :
    ∃ head, HeaderLine head ∧ spelledLines (listing program) = head ::
      ((program.instructions.map fun instr => instr.display.toList).zipIdx 2).map
        fun piece => ⟨piece.2, tokens piece.1⟩ := by
  rw [← sorted_of_numbered listable.numbered]
  refine spelledLines_of_unbroken (fun instr member => ?_) (fun instr member => ?_)
  all_goals rw [sorted_of_numbered listable.numbered] at member
  · exact display_unbroken fun arg held => (display_plain (listable.spelled instr member arg held)).2
  · rw [(instructs_display (listable.formed instr member) (listable.spelled instr member)).1]
    exact List.cons_ne_nil _ _

/-- A program that some text could spell is spelled by its listing. -/
theorem spelled_listing {program : Program} (listable : Listable program) :
    SpelledProgram (listing program) program := by
  obtain ⟨head, headed, lines⟩ := spelledLines_listing listable
  refine ⟨head, _, lines, headed, by simp, ?_⟩
  intro index line instr held placed
  simp only [List.getElem?_map, List.getElem?_zipIdx, placed, Option.map_some,
    Option.some.injEq] at held
  subst held
  have member := List.mem_of_getElem? placed
  exact ⟨listable.numbered index instr placed,
    (instructs_display (listable.formed instr member) (listable.spelled instr member)).2⟩

/-- A program that some text could spell is what its listing is read as. -/
theorem assemble_listing {program : Program} (few : program.instructions.length < UInt32.size)
    (listable : Listable program) : assemble (listing program) = .ok program := by
  have spelled := spelled_listing listable
  refine (assemble_ok_iff ?_).mpr spelled
  obtain ⟨head, rest, found, _, counted, _⟩ := spelled
  rw [found, List.tail_cons, ← counted]
  exact few

/-- Whatever a text spells is a program that some text could spell. -/
theorem listable_of_spelled {text : String} {program : Program}
    (spelled : SpelledProgram text program) : Listable program := by
  obtain ⟨head, rest, found, _, counted, each⟩ := spelled
  have lineOf : ∀ index instr, program.instructions[index]? = some instr →
      ∃ line ∈ spelledLines text, instr.order.toNat = index + 1 ∧
        Instructs line.words instr.opcode instr.args := by
    intro index instr placed
    have inside := (List.getElem?_eq_some_iff.mp placed).1
    have both := each index (rest[index]) instr (List.getElem?_eq_getElem (by omega)) placed
    refine ⟨rest[index], ?_, both⟩
    rw [found]
    exact List.mem_cons_of_mem _ (List.getElem_mem _)
  have lineOfMember : ∀ instr ∈ program.instructions,
      ∃ line ∈ spelledLines text, Instructs line.words instr.opcode instr.args := by
    intro instr member
    obtain ⟨index, placed⟩ := List.mem_iff_getElem?.mp member
    obtain ⟨line, held, _, instructs⟩ := lineOf index instr placed
    exact ⟨line, held, instructs⟩
  refine ⟨fun index instr placed => ?_, fun instr member => ?_, fun instr member arg argMember => ?_⟩
  · obtain ⟨_, _, numbered, _⟩ := lineOf index instr placed
    exact numbered
  · obtain ⟨_, _, instructs⟩ := lineOfMember instr member
    exact instructs_well_formed instructs instr.order
  · obtain ⟨line, held, mnemonic, operands, words, _, spelled⟩ := lineOfMember instr member
    obtain ⟨shape, word, wordMember, spells⟩ := spelled.word_of_arg arg argMember
    refine inGrammar_of_spells spells ?_
    exact ((mem_spelledLines held).2 word (by rw [words]; exact List.mem_cons_of_mem _ wordMember)).2

/-- An assembled program has an instruction for every line after the header. -/
theorem length_of_assembled {text : String} {program : Program}
    (assembled : assemble text = .ok program) :
    (spelledLines text).tail.length = program.instructions.length := by
  obtain ⟨head, rest, sequence, found, _, rfl, read⟩ := assembled_sequence assembled
  rw [found, List.tail_cons, read.length_eq]
  exact (number_length 1 sequence).symm

/-- Whatever is assembled, if it is not too long to be numbered, is a program that some text
could spell. -/
theorem listable_of_assembled {text : String} {program : Program}
    (few : program.instructions.length < UInt32.size) (assembled : assemble text = .ok program) :
    Listable program := by
  rw [← length_of_assembled assembled] at few
  exact listable_of_spelled ((assemble_ok_iff few).mp assembled)

/-- A program comes back from its listing exactly when its orders are one, two, three
and so on, its instructions are well formed, and the texts of its arguments are words
of the language. -/
theorem listing_round_trip_iff {program : Program} (few : program.instructions.length < UInt32.size) :
    assemble (listing program) = .ok program ↔
      (∀ index instr, program.instructions[index]? = some instr → instr.order.toNat = index + 1) ∧
      (∀ instr ∈ program.instructions, instr.isWellFormed = true) ∧
      (∀ instr ∈ program.instructions, ∀ arg ∈ instr.args, InGrammar arg) := by
  constructor
  · intro assembled
    obtain ⟨head, rest, sequence, found, headed, rfl, read⟩ := assembled_sequence assembled
    have short : rest.length < UInt32.size := by
      rw [read.length_eq, ← number_length 1 sequence]
      exact few
    have listable := listable_of_spelled
      ⟨head, rest, found, headed, spelled_of_sequence short read⟩
    exact ⟨listable.numbered, listable.formed, listable.spelled⟩
  · rintro ⟨numbered, formed, spelled⟩
    have whole := spelled_listing ⟨numbered, formed, spelled⟩
    refine (assemble_ok_iff ?_).mpr whole
    obtain ⟨head, rest, found, _, counted, _⟩ := whole
    rw [found, List.tail_cons, ← counted]
    exact few

/-- A program with a literal of every type but nil, one of them not ASCII. -/
def literals : Program :=
  ⟨[⟨1, .label, [⟨.label, "a-b"⟩]⟩,
    ⟨2, .jumpIfEq, [⟨.label, "a-b"⟩, ⟨.var, "GF@é"⟩, ⟨.literal .int, "-0x1F"⟩]⟩,
    ⟨3, .concat, [⟨.var, "LF@%x"⟩, ⟨.literal .string, "λ\\035"⟩, ⟨.literal .bool, "true"⟩]⟩]⟩

theorem listing_literals_comes_back :
    literals.instructions.length < UInt32.size ∧ assemble (listing literals) = .ok literals := by
  have few : literals.instructions.length < UInt32.size := by decide
  refine ⟨few, (listing_round_trip_iff few).mpr ⟨?_, by decide, ?_⟩⟩
  · intro index instr placed
    rcases index with _ | _ | _ | index
    all_goals cases placed
    all_goals rfl
  · have label : Identifier "a-b".toList := identifier_iff.mp (by decide +kernel)
    simp only [literals, List.forall_mem_cons, InGrammar]
    simp only [List.not_mem_nil, false_implies, implies_true, and_true]
    refine ⟨label, ⟨label, variable_iff.mp (by decide +kernel), ⟨-31, by decide +kernel⟩⟩,
      variable_iff.mp (by decide +kernel), ⟨⟨"λ#", by decide +kernel⟩, (by decide : PlainWord "λ\\035").2⟩, .inl rfl⟩

end Framecode.Source
