import Framecode.Proofs.Engine.Assembled
import Framecode.Proofs.Engine.Forward
import Framecode.Proofs.Engine.Sinks
import Framecode.Proofs.Literal.Escapes

/-! The texts that string literals can stand for. A literal is one word, so it holds no blank and
no number sign, and what it cannot hold it has to escape. An escape has three digits: a text can
be put into a literal exactly when it holds no blank with a code above 999. A WRITE of the literal
writes the text and nothing else. -/
namespace Framecode.Escape

/-! ## Spelling a text -/

/-- Whether a character has to be escaped in a string literal. -/
def isSpecial (c : Char) : Bool := c == '\\' || c == '#' || Text.isBlank c

/-- The three decimal digits of a number below 1000. -/
def threeDigits (code : Nat) : List Char :=
  [(code / 100).digitChar, (code / 10 % 10).digitChar, (code % 10).digitChar]

/-- A character as it stands in a string literal, escaped if it has to be and can be. -/
def spellChar (c : Char) : List Char :=
  if isSpecial c = true ∧ c.toNat ≤ 999 then '\\' :: threeDigits c.toNat else [c]

/-- A text as it stands in a string literal. -/
def spell (text : List Char) : List Char := text.flatMap spellChar

private theorem threeDigits_spec {code : Nat} (low : code ≤ 999) :
    (∀ c ∈ threeDigits code, c.isDigit = true ∧ Source.Plain c) ∧
      Nat.ofDigitChars 10 (threeDigits code) 0 = code := by
  have digit : ∀ value < 10, (value.digitChar.isDigit = true ∧ Source.Plain value.digitChar) ∧
      value.digitChar.toNat - '0'.toNat = value := by decide
  have hundreds := digit (code / 100) (by omega)
  have tens := digit (code / 10 % 10) (by omega)
  have units := digit (code % 10) (by omega)
  constructor
  · simp only [threeDigits, List.forall_mem_cons]
    exact ⟨hundreds.1, tens.1, units.1, by simp⟩
  · rw [threeDigits, code_of_digits, hundreds.2, tens.2, units.2]
    omega

private theorem decode_spellChar (c : Char) : decode (spellChar c) = some [c] := by
  rw [decode_some_iff, spellChar]
  split
  · rename_i escaped
    obtain ⟨digits, code⟩ := threeDigits_spec escaped.2
    exact .escape (fun c member => (digits c member).1) code.symm .nil
  · rename_i kept
    refine .plain ?_ .nil
    rintro rfl
    exact kept (by decide)

/-- A text comes back from its spelling. -/
theorem decode_spell (text : List Char) : decode (spell text) = some text := by
  induction text with
  | nil => rfl
  | cons c rest ih =>
    rw [spell, List.flatMap_cons, decode_append (decode_spellChar c)]
    rw [spell] at ih
    rw [ih]
    rfl

example : spell "a b#\\".toList = "a\\032b\\035\\092".toList := by decide

/-- A text without blanks of a high code is spelled without separators. -/
theorem spell_plain {text : List Char} (low : ∀ c ∈ text, Text.isBlank c = true → c.toNat ≤ 999) :
    ∀ c ∈ spell text, Source.Plain c := by
  intro c member
  obtain ⟨original, held, inside⟩ := List.mem_flatMap.mp member
  rw [spellChar] at inside
  split at inside
  · rename_i escaped
    rcases List.mem_cons.mp inside with rfl | digit
    · decide
    · exact ((threeDigits_spec escaped.2).1 c digit).2
  · rename_i kept
    cases List.mem_singleton.mp inside
    constructor
    · by_contra blank
      rw [Bool.not_eq_false] at blank
      exact kept ⟨by simp [isSpecial, blank], low c held blank⟩
    · rintro rfl
      exact kept (by decide)

/-- A decoded text holds no characters but those of the text and those with a code of three
digits. -/
theorem mem_of_decodes {text decoded : List Char} (decodes : Decodes text decoded) :
    ∀ c ∈ decoded, c ∈ text ∨ c.toNat ≤ 999 := by
  induction decodes with
  | nil => simp
  | plain other rest ih =>
    intro c member
    rcases List.mem_cons.mp member with rfl | later
    · exact .inl List.mem_cons_self
    · exact (ih c later).imp_left (List.mem_cons_of_mem _)
  | escape digits code rest ih =>
    intro c member
    rcases List.mem_cons.mp member with rfl | later
    · exact .inr (code ▸ code_le digits)
    · exact (ih c later).imp_left fun held => by simp [held]

end Framecode.Escape

namespace Framecode.Engine

open Source

/-! ## Words for texts -/

/-- A word of a source line is taken for a string literal whose value is a text. -/
structure Expresses (word text : String) : Prop where
  token : ∃ line, word ∈ wordsOf line
  literal : ∃ arg, readOperand .symb word = .ok arg ∧ arg.literal = .ok (some (.string text))

/-- A word of some line is one that is not empty and holds no separator. -/
theorem token_iff {word : String} : (∃ line, word ∈ wordsOf line) ↔ PlainWord word := by
  constructor
  · rintro ⟨line, member⟩
    rw [wordsOf, List.mem_map] at member
    obtain ⟨letters, held, rfl⟩ := member
    obtain ⟨filled, unbroken⟩ := Text.mem_words held
    rw [PlainWord, String.toList_ofList]
    refine ⟨filled, fun c inside => ⟨(unbroken c inside).1, ?_⟩⟩
    simpa using List.all_eq_true.mp List.all_takeWhile c (unbroken c inside).2
  · intro plain
    have alone := @tokens_of_words word [] (by simpa using plain)
    rw [List.flatMap_nil, List.append_nil, ← wordsOf_eq_tokens] at alone
    exact ⟨word.toList, by simp [alone]⟩

/-- An argument has the value of a text exactly when it is a string literal that is decoded to
it. -/
theorem literal_string_iff {arg : Argument} {text : String} :
    arg.literal = .ok (some (.string text)) ↔
      ∃ spelling, arg = .ofString spelling ∧ Escape.decodeText? spelling = some text := by
  constructor
  · intro valued
    obtain ⟨kind, spelling⟩ := arg
    cases kind with
    | var | label | typeName => cases valued
    | literal type =>
      obtain ⟨value, decoded, same⟩ := map_ok_iff.mp valued
      cases same
      cases type with
      | string =>
        refine ⟨spelling, rfl, ?_⟩
        simp only [Argument.decode] at decoded
        split at decoded
        · rename_i found
          cases decoded
          exact found
        · cases decoded
      | int =>
        simp only [Argument.decode] at decoded
        split at decoded <;> cases decoded
      | bool =>
        simp only [Argument.decode] at decoded
        split at decoded
        · cases decoded
        · split at decoded <;> cases decoded
      | nil =>
        simp only [Argument.decode] at decoded
        split at decoded <;> cases decoded
  · rintro ⟨spelling, rfl, decoded⟩
    simp only [Argument.ofString, Argument.literal, Argument.decode, decoded]
    rfl

/-- The words for a text are the string literals without separators that are decoded to it. -/
theorem expresses_iff {word text : String} :
    Expresses word text ↔ ∃ spelling, word = ValueType.string.name ++ "@" ++ spelling ∧
      (∀ c ∈ spelling.toList, Plain c) ∧ Escape.decodeText? spelling = some text := by
  constructor
  · rintro ⟨token, arg, read, valued⟩
    obtain ⟨spelling, rfl, decoded⟩ := literal_string_iff.mp valued
    cases operand_ok_iff.mp read
    refine ⟨spelling, rfl, fun c member => (token_iff.mp token).2 c ?_, decoded⟩
    rw [String.toList_append]
    exact List.mem_append_right _ member
  · rintro ⟨spelling, rfl, plain, decoded⟩
    have token := token_iff.mpr (marked_word_plain (type_name_word .string) plain)
    exact ⟨token, .ofString spelling, operand_ok_iff.mpr (.literal ⟨text, decoded⟩),
      literal_string_iff.mpr ⟨spelling, rfl, decoded⟩⟩

/-- There is a word for a text exactly when all its blanks have codes of three digits. -/
theorem expressible_iff {text : String} : (∃ word, Expresses word text) ↔
    ∀ c ∈ text.toList, Text.isBlank c = true → c.toNat ≤ 999 := by
  simp only [expresses_iff]
  constructor
  · rintro ⟨word, spelling, rfl, plain, decoded⟩ c member blank
    have decodes := Escape.decode_some_iff.mp (Escape.decodeText_some_iff.mp decoded)
    rcases Escape.mem_of_decodes decodes c member with held | low
    · rw [(plain c held).1] at blank
      cases blank
    · exact low
  · intro low
    refine ⟨_, String.ofList (Escape.spell text.toList), rfl, ?_, ?_⟩
    · rw [String.toList_ofList]
      exact Escape.spell_plain low
    · rw [Escape.decodeText_some_iff, String.toList_ofList, Escape.decode_spell]

/-! ## Writing a literal -/

/-- Wherever an instruction is executed, it writes a text: unless the sink refuses the text, it is
added to what is written, and nothing else is done. -/
def Writes (instr : Instruction) (text : String) : Prop :=
  ∀ (machine : Machine) (state : State), machine.code.fetch? state.next = some instr →
    machine.step state =
      match machine.sink.refusal state.written text with
      | none => .running { state with next := state.next + 1, written := text :: state.written }
      | some reason =>
        .finished (.failed ⟨instr.order, .output reason⟩) { state with next := state.next + 1 }

private theorem writes_of_literal {arg : Argument} {text : String}
    (valued : arg.literal = .ok (some (.string text))) (order : UInt32) :
    Writes ⟨order, .write, [arg]⟩ text := by
  intro machine state fetched
  obtain ⟨spelling, rfl, _⟩ := literal_string_iff.mp valued
  have value : state.frames.valueOf (.ofString spelling) = .ok (.string text) := by
    rw [Frames.valueOf, Frames.slotOf, if_neg nofun, valued]
    rfl
  have wrote : textOf? state ⟨order, .write, [.ofString spelling]⟩ = some text :=
    textOf_some_iff.mpr ⟨_, _, rfl, value, rfl⟩
  cases refused : machine.sink.refusal state.written text with
  | some reason => exact step_refused fetched wrote refused
  | none =>
    exact step_running_iff.mpr ⟨_, _, _, fetched, rfl, .write value refused, nofun, rfl⟩

/-- A source text has a WRITE of a word as the instruction with an index, counted from zero. -/
def WritesWord (source : String) (index : Nat) (word : String) : Prop :=
  ∃ head rest line mnemonic, spelledLines source = head :: rest ∧ rest[index]? = some line ∧
    line.words = [mnemonic, word] ∧ Text.sameWord Opcode.write.mnemonic mnemonic = true

/-- The words of a WRITE make an instruction in one way. -/
theorem instructs_write {mnemonic word : String} {opcode : Opcode} {args : List Argument}
    {arg : Argument} (known : Text.sameWord Opcode.write.mnemonic mnemonic = true)
    (read : readOperand .symb word = .ok arg) (instructs : Instructs [mnemonic, word] opcode args) :
    opcode = .write ∧ args = [arg] := by
  obtain ⟨_, _, words, knownToo, spelled⟩ := instructs
  cases words
  have found := Opcode.ofMnemonic_some_iff.mpr knownToo
  rw [Opcode.ofMnemonic_some_iff.mpr known] at found
  cases found
  obtain ⟨⟩ | ⟨first, others⟩ := spelled
  cases others
  rw [← operand_ok_iff, read] at first
  cases first
  exact ⟨rfl, rfl⟩

/-- A WRITE of a word for a text in a source text writes the text in the loaded program. -/
theorem writes_of_assembled {source word text : String} {program : Program} {code : Code}
    {index : Nat} (expresses : Expresses word text) (assembled : assemble source = .ok program)
    (loaded : Code.load program = .ok code) (written : WritesWord source index word) :
    ∃ instr, code.fetch? (index + 1) = some instr ∧ Writes instr text := by
  obtain ⟨head, rest, sequence, found, _, rfl, read⟩ := assembled_sequence assembled
  obtain ⟨_, _, line, mnemonic, foundToo, held, words, known⟩ := written
  cases found.symm.trans foundToo
  obtain ⟨arg, operand, valued⟩ := expresses.literal
  obtain ⟨inside, rfl⟩ := List.getElem?_eq_some_iff.mp held
  obtain ⟨counted, each⟩ := List.forall₂_iff_get.mp read
  have instructs := each index inside (by omega)
  simp only [List.get_eq_getElem, words] at instructs
  obtain ⟨opcode, args⟩ := instructs_write known operand instructs
  refine ⟨⟨UInt32.ofNat (1 + index), .write, [arg]⟩, ?_, writes_of_literal valued _⟩
  rw [fetch_some_iff, (load_ok loaded).1, sorted_of_load_sequence loaded, Program.ofSequence,
    Nat.add_sub_cancel, number_getElem, List.getElem?_eq_getElem (by omega), Option.map_some,
    opcode, args]
  exact ⟨by omega, rfl⟩

/-- The source text that is nothing but a WRITE of a word. -/
def writing (word : String) : String := header ++ "\nWRITE " ++ word ++ "\n"

/-- The program that is nothing but a WRITE of a string literal. -/
def lone (spelling : String) : Program := ⟨[⟨1, .write, [.ofString spelling]⟩]⟩

private theorem lone_listable {spelling text : String} (plain : ∀ c ∈ spelling.toList, Plain c)
    (decoded : Escape.decodeText? spelling = some text) : Listable (lone spelling) where
  numbered index instr held := by
    cases index with
    | zero =>
      cases held
      rfl
    | succ index => cases held
  formed := by
    simp only [lone, List.mem_singleton, forall_eq]
    rfl
  spelled := by
    simp only [lone, List.mem_singleton, forall_eq]
    exact ⟨⟨text, decoded⟩, plain⟩

private theorem lone_listing (spelling : String) :
    listing (lone spelling) = writing (ValueType.string.name ++ "@" ++ spelling) := by
  have sorted : (lone spelling).sorted = (lone spelling).instructions :=
    sorted_eq_self_iff.mpr (List.pairwise_singleton _ _)
  rw [← String.toList_inj, listing, sorted]
  simp only [lone, writing, Argument.ofString, List.map_cons, List.map_nil, String.join_cons,
    String.join_nil, String.toList_append, instruction_display, Argument.display,
    ArgKind.isLiteral, ArgKind.name, if_true, List.flatMap_cons, List.flatMap_nil,
    List.append_assoc]
  rfl

/-- A WRITE of a word for a text is assembled to a program of one instruction, which loads. -/
theorem writing_loads {word text : String} (expresses : Expresses word text) :
    ∃ program code, assemble (writing word) = .ok program ∧ Code.load program = .ok code ∧
      code.size = 1 ∧ WritesWord (writing word) 0 word := by
  obtain ⟨spelling, rfl, plain, decoded⟩ := expresses_iff.mp expresses
  have listable := lone_listable plain decoded
  -- The source text is the listing of the program, and listings are assembled to what they list.
  have few : (lone spelling).instructions.length < UInt32.size := show 1 < UInt32.size by decide
  have assembled := assemble_listing few listable
  obtain ⟨head, _, lines⟩ := spelledLines_listing listable
  have member : ⟨1, .write, [.ofString spelling]⟩ ∈ (lone spelling).instructions :=
    List.mem_singleton_self _
  have words := (instructs_display (listable.formed _ member) (listable.spelled _ member)).1
  rw [lone_listing] at assembled lines
  refine ⟨lone spelling, _, assembled, load_eq_of_listable listable, rfl, ?_⟩
  exact ⟨head, _, _, _, lines, rfl, words, beq_self_eq_true _⟩

/-- A run of nothing but a WRITE is complete after it, and has written the text. -/
theorem run_of_writes {code : Code} {instr : Instruction} {text : String}
    (fetched : code.fetch? 1 = some instr) (single : code.size = 1) (writes : Writes instr text)
    (input : Input) (fuel : Nat) :
    let ended := (Machine.mk code .accepting).run (fuel + 2) (.initial input)
    ended.outcome = some .completed ∧ ended.state.output = text := by
  have first := writes ⟨code, .accepting⟩ (.initial input) fetched
  have behind : code.fetch? 2 = none := fetch_none_iff.mpr (.inr (by omega))
  rw [run_running first, run_finished (step_completed_iff.mpr ⟨behind, rfl⟩)]
  refine ⟨rfl, ?_⟩
  rw [@output_of_written _ [text] rfl]
  simp

/-- A text can be put into a string literal of source text exactly when it holds no blank with a
code above 999. Whatever literal stands for it, a WRITE of the literal writes the text and nothing
else, wherever it stands in a program that is assembled and loaded; and there is such a program,
the one that is nothing but this WRITE, whose output is the text. -/
theorem texts_expressible_iff (text : String) :
    ((∃ word, Expresses word text) ↔
      ∀ c ∈ text.toList, Text.isBlank c = true → c.toNat ≤ 999) ∧
    ∀ word, Expresses word text →
      (∀ source program code index, assemble source = .ok program →
        Code.load program = .ok code → WritesWord source index word →
        ∃ instr, code.fetch? (index + 1) = some instr ∧ Writes instr text) ∧
      ∃ program code, assemble (writing word) = .ok program ∧ Code.load program = .ok code ∧
        ∀ input fuel,
          let ended := (Machine.mk code .accepting).run (fuel + 2) (.initial input)
          ended.outcome = some .completed ∧ ended.state.output = text := by
  refine ⟨expressible_iff, fun word expresses => ⟨?_, ?_⟩⟩
  · intro source program code index assembled loaded written
    exact writes_of_assembled expresses assembled loaded written
  · obtain ⟨program, code, assembled, loaded, single, written⟩ := writing_loads expresses
    obtain ⟨instr, fetched, writes⟩ := writes_of_assembled expresses assembled loaded written
    exact ⟨program, code, assembled, loaded, run_of_writes fetched single writes⟩

end Framecode.Engine
