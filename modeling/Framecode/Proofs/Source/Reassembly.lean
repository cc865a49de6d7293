import Framecode.Proofs.Engine.Failures
import Framecode.Proofs.Engine.Positions
import Framecode.Proofs.Interchange.RoundTrip
import Framecode.Proofs.Source.RoundTrip

/-! Listings of programs that did not come from source text. A document can give an
argument any text at all, and a listing writes it without escapes; so what is read back may
be refused, may be the program under new orders, and may as well be another program. The
last can happen only where a text holds a separator or a variable is spelled like a
literal. -/
namespace Framecode

/-- A program with its instructions in the order of execution, under the orders one, two,
three and so on. -/
def Program.inSequence (program : Program) : Program :=
  .ofSequence (program.sorted.map fun instr => (instr.opcode, instr.args))

namespace Source

open Engine (Code few_of_load formed_of_load)

/-! ## Programs under new orders -/

section

variable {program : Program} (few : program.instructions.length < UInt32.size)

private theorem inSequence_getElem (program : Program) (index : Nat) :
    program.inSequence.instructions[index]? = program.sorted[index]?.map fun instr =>
      ⟨UInt32.ofNat (1 + index), instr.opcode, instr.args⟩ := by
  rw [Program.inSequence, Program.ofSequence, number_getElem, List.getElem?_map, Option.map_map]
  rfl

include few in
private theorem inSequence_numbered : ∀ index instr,
    program.inSequence.instructions[index]? = some instr → instr.order.toNat = index + 1 := by
  intro index instr held
  rw [inSequence_getElem] at held
  obtain ⟨found, placed, rfl⟩ := Option.map_eq_some_iff.mp held
  have inside := (List.getElem?_eq_some_iff.mp placed).1
  have length : program.sorted.length = program.instructions.length := List.length_mergeSort _
  simp only [UInt32.toNat_ofNat']
  rw [Nat.mod_eq_of_lt (by simp only [UInt32.size] at few; omega)]
  omega

/-- What holds of the opcode and the arguments of every instruction holds of the same
program under new orders. -/
theorem forall_inSequence {holds : Opcode → List Argument → Prop} :
    (∀ instr ∈ program.inSequence.instructions, holds instr.opcode instr.args) ↔
      ∀ instr ∈ program.instructions, holds instr.opcode instr.args := by
  constructor
  · intro all instr member
    obtain ⟨index, placed⟩ := List.mem_iff_getElem?.mp ((sorted_perm program).mem_iff.mpr member)
    have held : program.inSequence.instructions[index]? =
        some ⟨UInt32.ofNat (1 + index), instr.opcode, instr.args⟩ := by
      rw [inSequence_getElem, placed]
      rfl
    have kept := all _ (List.mem_of_getElem? held)
    exact kept
  · intro all instr member
    obtain ⟨index, held⟩ := List.mem_iff_getElem?.mp member
    rw [inSequence_getElem] at held
    obtain ⟨found, placed, rfl⟩ := Option.map_eq_some_iff.mp held
    exact all found ((sorted_perm program).mem_iff.mp (List.mem_of_getElem? placed))

include few in
/-- A listing does not show orders, only the order of execution. -/
theorem listing_inSequence : listing program.inSequence = listing program := by
  have lines : program.inSequence.instructions.map (fun instr => instr.display ++ "\n") =
      program.sorted.map fun instr => instr.display ++ "\n" := by
    apply List.ext_getElem?
    intro index
    rw [List.getElem?_map, List.getElem?_map, inSequence_getElem, Option.map_map]
    rfl
  rw [listing, listing, sorted_of_numbered (inSequence_numbered few), lines]

end

/-! ## Words that are read back as they were written -/

/-- An argument whose text holds no separator, and that is not spelled like one of another
kind: only a variable could be, if the name of a type stands where that of a frame should. -/
structure Unmistakable (arg : Argument) : Prop where
  plain : ∀ c ∈ arg.text.toList, Plain c
  unmarked : arg.kind = .var → ∀ (type : ValueType) (text : String),
    arg.text ≠ type.name ++ "@" ++ text

/-- Whatever the display of an unmistakable argument spells is that argument. -/
theorem spells_display_unique {shape : Shape} {arg other : Argument} (clear : Unmistakable arg)
    (accepted : shape.accepts arg.kind = true) (spelled : Spells shape arg.display other) :
    other = arg := by
  obtain ⟨kind, text⟩ := arg
  cases kind with
  | var =>
    change Spells shape text other at spelled
    cases spelled with
    | varRef | symbol => rfl
    | literal => exact absurd rfl (clear.unmarked rfl _ _)
    | label | type => cases accepted
  | label =>
    change Spells shape text other at spelled
    cases spelled with
    | label => rfl
    | varRef | symbol | literal | type => cases accepted
  | typeName =>
    change Spells shape text other at spelled
    cases spelled with
    | type => rfl
    | varRef | symbol | literal | label => cases accepted
  | literal type =>
    change Spells shape (type.name ++ "@" ++ text) other at spelled
    generalize whole : type.name ++ "@" ++ text = word at spelled
    cases spelled with
    | @literal otherType otherText =>
      obtain ⟨names, rfl⟩ :=
        marked_word_unique (type_name_plain type) (type_name_plain otherType) whole
      have same : some type = some otherType :=
        (ValueType.ofName_some_iff.mpr names).symm.trans (ValueType.ofName_some_iff.mpr rfl)
      cases same
      rfl
    | symbol named => exact absurd (whole ▸ named) (literal_not_variable type text)
    | varRef | label | type => cases accepted

/-- Whatever the displays of unmistakable arguments spell are those arguments. -/
theorem spellsAll_display_unique {shapes : List Shape} {args others : List Argument}
    (clear : ∀ arg ∈ args, Unmistakable arg)
    (accepted : (shapes.zip args).all (fun pair => pair.1.accepts pair.2.kind) = true)
    (spelled : SpellsAll shapes (args.map Argument.display) others) : others = args := by
  induction args generalizing shapes others with
  | nil =>
    cases spelled
    rfl
  | cons arg args ih =>
    cases spelled with
    | cons first following =>
      rw [List.zip_cons_cons, List.all_cons, Bool.and_eq_true] at accepted
      obtain ⟨clearFirst, clearOthers⟩ := List.forall_mem_cons.mp clear
      rw [spells_display_unique clearFirst accepted.1 first, ih clearOthers accepted.2 following]

private theorem display_unseparated {arg : Argument} (plain : ∀ c ∈ arg.text.toList, Plain c) :
    ∀ c ∈ arg.display.toList, Plain c := by
  obtain ⟨kind, text⟩ := arg
  cases kind with
  | literal type => exact (marked_word_plain (type_name_word type) plain).2
  | var | label | typeName => exact plain

section

variable {instr : Instruction} (clear : ∀ arg ∈ instr.args, Unmistakable arg)
include clear

/-- The words of an instruction with unmistakable arguments, of which empty ones are lost. -/
theorem tokens_display : tokens instr.display.toList =
    instr.opcode.mnemonic :: (instr.args.map Argument.display).filter (· ≠ "") := by
  have plain : ∀ word ∈ instr.opcode.mnemonic :: instr.args.map Argument.display,
      ∀ c ∈ word.toList, Plain c := by
    refine List.forall_mem_cons.mpr ⟨(mnemonic_plain instr.opcode).2, ?_⟩
    intro word member
    obtain ⟨arg, held, rfl⟩ := List.mem_map.mp member
    exact display_unseparated (clear arg held).plain
  have filled : instr.opcode.mnemonic ≠ "" := by
    intro empty
    exact (mnemonic_plain instr.opcode).1 (by rw [empty]; rfl)
  rw [instruction_display, tokens_of_spaced plain, List.filter_cons_of_pos (by simpa using filled)]

/-- The line of a well formed instruction with unmistakable arguments is read as that
instruction, if it is read as any. -/
theorem instructs_display_unique {opcode : Opcode} {args : List Argument}
    (formed : instr.isWellFormed = true)
    (instructs : Instructs (tokens instr.display.toList) opcode args) :
    (opcode, args) = (instr.opcode, instr.args) := by
  obtain ⟨mnemonic, operands, words, known, spelled⟩ := instructs
  rw [tokens_display clear] at words
  cases words
  have same : opcode = instr.opcode := by
    have own := Opcode.ofMnemonic_some_iff.mpr (beq_self_eq_true (Text.foldCase instr.opcode.mnemonic))
    exact Option.some.inj ((Opcode.ofMnemonic_some_iff.mpr known).symm.trans own)
  subst same
  rw [Instruction.isWellFormed, Bool.and_eq_true, beq_iff_eq] at formed
  -- An operand without a word of its own leaves the line one word short.
  have whole : (instr.args.map Argument.display).filter (· ≠ "") =
      instr.args.map Argument.display := by
    refine List.filter_eq_self.mpr (List.length_filter_eq_length_iff.mp ?_)
    rw [spelled.length.1, List.length_map, formed.1]
    rfl
  rw [whole] at spelled
  rw [spellsAll_display_unique clear formed.2 spelled]

end

/-! ## Programs that are read back -/

/-- Lines of well formed instructions with unmistakable arguments are read as those
instructions, if they are read at all. -/
theorem sequence_of_lines {instructions : List Instruction} {start : Nat}
    {sequence : List (Opcode × List Argument)}
    (formed : ∀ instr ∈ instructions, instr.isWellFormed = true)
    (clear : ∀ instr ∈ instructions, ∀ arg ∈ instr.args, Unmistakable arg)
    (read : List.Forall₂ (fun (line : Line) item => Instructs line.words item.1 item.2)
      (((instructions.map fun instr => instr.display.toList).zipIdx start).map
        fun piece => ⟨piece.2, tokens piece.1⟩) sequence) :
    sequence = instructions.map fun instr => (instr.opcode, instr.args) := by
  induction instructions generalizing start sequence with
  | nil =>
    cases read
    rfl
  | cons instr rest ih =>
    obtain ⟨formedFirst, formedRest⟩ := List.forall_mem_cons.mp formed
    obtain ⟨clearFirst, clearRest⟩ := List.forall_mem_cons.mp clear
    cases read with
    | cons first following =>
      rw [List.map_cons, ← instructs_display_unique clearFirst formedFirst first,
        ← ih formedRest clearRest following]

/-- The listing of a loaded program with unmistakable arguments is read as that program under
new orders, if it is read at all. -/
theorem reassembled_unique {program other : Program} {code : Code}
    (loaded : Code.load program = .ok code)
    (clear : ∀ instr ∈ program.instructions, ∀ arg ∈ instr.args, Unmistakable arg)
    (assembled : assemble (listing program) = .ok other) : other = program.inSequence := by
  have formed : ∀ instr ∈ program.sorted, instr.isWellFormed = true :=
    fun instr member => formed_of_load loaded instr ((sorted_perm program).mem_iff.mp member)
  have clearSorted : ∀ instr ∈ program.sorted, ∀ arg ∈ instr.args, Unmistakable arg :=
    fun instr member => clear instr ((sorted_perm program).mem_iff.mp member)
  obtain ⟨_, _, lines⟩ := @spelledLines_of_unbroken program
    (fun instr member => display_unbroken fun arg held =>
      display_unseparated (clearSorted instr member arg held).plain)
    (fun instr member => by
      rw [tokens_display (clearSorted instr member)]
      exact List.cons_ne_nil _ _)
  obtain ⟨head, rest, sequence, found, _, rfl, read⟩ := assembled_sequence assembled
  rw [lines] at found
  cases found
  rw [sequence_of_lines formed clearSorted read, Program.inSequence]

/-! ## Loaded programs -/

/-- The listing of a loaded program is read as that program under new orders exactly when
all arguments have a text that a word can spell. Where all arguments are unmistakable it is
read as that or not at all. -/
theorem loaded_listing_reassembles {program : Program} {code : Code}
    (loaded : Code.load program = .ok code) :
    (assemble (listing program) = .ok program.inSequence ↔
      ∀ instr ∈ program.instructions, ∀ arg ∈ instr.args, InGrammar arg) ∧
    ((∀ instr ∈ program.instructions, ∀ arg ∈ instr.args, Unmistakable arg) →
      (∃ error, assemble (listing program) = .error error) ∨
        assemble (listing program) = .ok program.inSequence) := by
  have few := few_of_load loaded
  have length : program.inSequence.instructions.length = program.instructions.length := by
    rw [Program.inSequence, Program.ofSequence, number_length, List.length_map]
    exact List.length_mergeSort _
  have spelled := @forall_inSequence program fun _ args => ∀ arg ∈ args, InGrammar arg
  -- The order of an instruction does not matter for its form, so any will do.
  have formed := (@forall_inSequence program fun opcode args =>
    (Instruction.mk 0 opcode args).isWellFormed = true).mpr (formed_of_load loaded)
  refine ⟨?_, fun clear => ?_⟩
  · rw [← listing_inSequence few]
    constructor
    · intro assembled
      exact spelled.mp (listable_of_assembled (length ▸ few) assembled).spelled
    · intro words
      exact assemble_listing (length ▸ few) ⟨inSequence_numbered few, formed, spelled.mpr words⟩
  · cases assembled : assemble (listing program) with
    | error error => exact .inl ⟨error, rfl⟩
    | ok other => exact .inr (by rw [reassembled_unique loaded clear assembled])

/-- A program that is not listed in the order of execution. -/
def backward : Program :=
  ⟨[⟨20, .write, [⟨.literal .string, "λ"⟩]⟩, ⟨10, .defVar, [⟨.var, "GF@x"⟩]⟩]⟩

/-- The same program once it is loaded. -/
def backwardCode : Code :=
  ⟨[⟨10, .defVar, [⟨.var, "GF@x"⟩]⟩, ⟨20, .write, [⟨.literal .string, "λ"⟩]⟩], {}⟩

theorem backward_listing_reassembles :
    Code.load backward = .ok backwardCode ∧
    (∀ instr ∈ backward.instructions, ∀ arg ∈ instr.args, InGrammar arg) ∧
    assemble (listing backward) = .ok backward.inSequence := by
  have sorted : backward.sorted = backwardCode.instructions :=
    sorted_unique (by decide) (by decide) (by unfold Ordered; decide)
  have loaded : Code.load backward = .ok backwardCode := by
    rw [Code.load, sorted]
    rfl
  have spelled : ∀ instr ∈ backward.instructions, ∀ arg ∈ instr.args, InGrammar arg := by
    simp only [backward, List.forall_mem_cons, InGrammar]
    simp only [List.not_mem_nil, false_implies, implies_true, and_true]
    exact ⟨⟨⟨"λ", by decide +kernel⟩, (by decide : PlainWord "λ").2⟩,
      variable_iff.mp (by decide +kernel)⟩
  exact ⟨loaded, spelled, (loaded_listing_reassembles loaded).1.mpr spelled⟩

/-- A program with a number sign in a string. -/
def hashed : Program := ⟨[⟨1, .write, [⟨.literal .string, "a#b"⟩]⟩]⟩

/-- The program that its listing is read as: the sign starts a comment. -/
def unhashed : Program := ⟨[⟨1, .write, [⟨.literal .string, "a"⟩]⟩]⟩

theorem hashed_listing_changes :
    Interchange.read (Interchange.write hashed) = .ok hashed ∧
    Code.load hashed = .ok ⟨hashed.instructions, {}⟩ ∧
    assemble (listing hashed) = .ok unhashed ∧ unhashed ≠ hashed.inSequence := by
  have sorted : hashed.sorted = hashed.instructions :=
    sorted_eq_self_iff.mpr (List.pairwise_singleton _ _)
  have clear : ¬Interchange.Forbidden hashed.instructions := by
    simp [Interchange.Forbidden, hashed, Interchange.ForbiddenChar]
  have counted : ¬Interchange.Miscounted hashed.instructions := by
    simp [Interchange.Miscounted, hashed, Opcode.arity, Opcode.operands]
  refine ⟨?_, Engine.load_of_listed rfl rfl rfl, ?_, ?_⟩
  · rw [Interchange.read_counted clear counted, sorted]
    decide +kernel
  · rw [listing, sorted]
    decide +kernel
  · rw [Program.inSequence, sorted]
    decide

end Source

end Framecode
