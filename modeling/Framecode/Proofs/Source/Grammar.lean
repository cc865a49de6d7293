import Framecode.Proofs.Names
import Framecode.Proofs.Text.Pieces
import Framecode.Source.Assemble

/-! The language of source lines, told apart from the way lines are read. A word is in
the grammar of an operand when it spells an argument, and a line is an instruction
when its words are a mnemonic and one such word for every operand. Reading a line
finds exactly that, and otherwise the first thing that is wrong with it. -/
namespace Framecode.Source

/-! ## The grammar -/

/-- An identifier: a letter or mark, then letters, numerals and marks. -/
def Identifier (name : List Char) : Prop :=
  ∃ first rest, name = first :: rest ∧ (Text.isLetter first = true ∨ first ∈ nameMarks) ∧
    ∀ c ∈ rest, Text.isLetter c = true ∨ Text.isNumeral c = true ∨ c ∈ nameMarks

/-- A word that names a variable: a frame, an at sign and an identifier. -/
def VariableWord (word : String) : Prop :=
  ∃ (role : FrameRole) (name : String), word = role.mark ++ "@" ++ name ∧ Identifier name.toList

/-- The texts that spell a value of a type. -/
def LiteralText : ValueType → String → Prop
  | .int, text => ∃ number, Integer.parse? text = some number
  | .bool, text => text = "true" ∨ text = "false"
  | .string, text => ∃ decoded, Escape.decodeText? text = some decoded
  | .nil, text => text = "nil"

/-- The words that a position of some shape takes, and the arguments they spell. A
literal loses the name of its type and the at sign; every other word stays whole. -/
inductive Spells : Shape → String → Argument → Prop where
  | varRef {word : String} (named : VariableWord word) : Spells .var word ⟨.var, word⟩
  | symbol {word : String} (named : VariableWord word) : Spells .symb word ⟨.var, word⟩
  | literal {type : ValueType} {text : String} (spelled : LiteralText type text) :
      Spells .symb (type.name ++ "@" ++ text) ⟨.literal type, text⟩
  | label {word : String} (named : Identifier word.toList) : Spells .label word ⟨.label, word⟩
  | type (type : ValueType) : Spells .type type.name ⟨.typeName, type.name⟩

/-- Words that spell one argument for each of several positions. -/
inductive SpellsAll : List Shape → List String → List Argument → Prop where
  | nil : SpellsAll [] [] []
  | cons {shape : Shape} {word : String} {arg : Argument} {shapes : List Shape}
      {words : List String} {args : List Argument} (first : Spells shape word arg)
      (others : SpellsAll shapes words args) :
      SpellsAll (shape :: shapes) (word :: words) (arg :: args)

/-- Words that make an instruction: a mnemonic in any ASCII case, and the words of its
operands. -/
def Instructs (words : List String) (opcode : Opcode) (args : List Argument) : Prop :=
  ∃ mnemonic operands, words = mnemonic :: operands ∧
    Text.sameWord opcode.mnemonic mnemonic = true ∧ SpellsAll opcode.operands operands args

/-- What a position asked for when the word there spells nothing. A word that starts
like a literal was to be one. -/
inductive Missed : Shape → String → Expected → Prop where
  | varRef {word : String} : Missed .var word .varRef
  | literal (type : ValueType) (text : String) : Missed .symb (type.name ++ "@" ++ text) .literal
  | symbol {word : String}
      (unmarked : ∀ (type : ValueType) (text : String), word ≠ type.name ++ "@" ++ text) :
      Missed .symb word .symbol
  | label {word : String} : Missed .label word .label
  | type {word : String} : Missed .type word .type

/-- The leftmost word that spells nothing at its position, and what was asked for. -/
inductive FirstMissed : List Shape → List String → Problem → Prop where
  | here {shape : Shape} {word : String} {expected : Expected} {shapes : List Shape}
      {words : List String} (nothing : ∀ arg, ¬ Spells shape word arg)
      (missed : Missed shape word expected) :
      FirstMissed (shape :: shapes) (word :: words) (.argument word expected)
  | later {shape : Shape} {word : String} {arg : Argument} {shapes : List Shape}
      {words : List String} {problem : Problem} (first : Spells shape word arg)
      (others : FirstMissed shapes words problem) :
      FirstMissed (shape :: shapes) (word :: words) problem

/-- What is wrong with the words of a line: a header comes first, then an unknown
mnemonic, then the number of operands, and the operands themselves last. -/
inductive Offends : List String → Problem → Prop where
  | header {mnemonic : String} {operands : List String} (misplaced : isHeader mnemonic = true) :
      Offends (mnemonic :: operands) .misplacedHeader
  | mnemonic {mnemonic : String} {operands : List String} (placed : isHeader mnemonic = false)
      (unknown : ∀ opcode : Opcode, Text.sameWord opcode.mnemonic mnemonic = false) :
      Offends (mnemonic :: operands) (.unknownOpcode mnemonic)
  | count {mnemonic : String} {operands : List String} {opcode : Opcode}
      (known : Text.sameWord opcode.mnemonic mnemonic = true)
      (different : operands.length ≠ opcode.arity) :
      Offends (mnemonic :: operands) (.argumentCount opcode operands.length)
  | operand {mnemonic : String} {operands : List String} {opcode : Opcode} {problem : Problem}
      (known : Text.sameWord opcode.mnemonic mnemonic = true)
      (counted : operands.length = opcode.arity)
      (missed : FirstMissed opcode.operands operands problem) :
      Offends (mnemonic :: operands) problem

/-! ## Reading words -/

theorem identifier_iff {name : List Char} : isIdentifier name = true ↔ Identifier name := by
  cases name with
  | nil => simp [isIdentifier, Identifier]
  | cons first rest =>
    simp only [isIdentifier, startsName, continuesName, Bool.and_eq_true, Bool.or_eq_true,
      List.all_eq_true, List.contains_iff_mem, Identifier, List.cons.injEq, or_assoc]
    constructor
    · rintro ⟨starts, continues⟩
      exact ⟨first, rest, ⟨rfl, rfl⟩, starts, continues⟩
    · rintro ⟨_, _, ⟨rfl, rfl⟩, starts, continues⟩
      exact ⟨starts, continues⟩

/-- A word is cut at its first at sign. -/
theorem cut_word_iff {word lead text : String} (plain : '@' ∉ lead.toList) :
    Text.cutAt? '@' word.toList = some (lead.toList, text.toList) ↔ word = lead ++ "@" ++ text := by
  rw [Text.cutAt_some_iff, ← String.toList_inj]
  simp [plain]

private theorem mark_plain (role : FrameRole) : '@' ∉ role.mark.toList := by
  cases role <;> decide

/-- A variable is read as it is spelled, if it has a name at all. -/
theorem parse_display {var : VarRef} (named : var.name ≠ "") :
    VarRef.parse var.display = .ok var := by
  have filled : var.name.toList.isEmpty = false := by simpa using named
  rw [VarRef.parse, VarRef.display, (cut_word_iff (mark_plain var.frame)).mpr rfl]
  simp [FrameRole.ofMark_some_iff.mpr rfl, filled]

theorem type_name_plain (type : ValueType) : '@' ∉ type.name.toList := by
  cases type <;> decide

/-- A word has one part before its first at sign and one after it. -/
theorem marked_word_unique {lead lead' text text' : String} (plain : '@' ∉ lead.toList)
    (plain' : '@' ∉ lead'.toList) (same : lead ++ "@" ++ text = lead' ++ "@" ++ text') :
    lead = lead' ∧ text = text' := by
  have cut := (cut_word_iff plain).mpr (Eq.refl (lead ++ "@" ++ text))
  rw [same, (cut_word_iff plain').mpr rfl] at cut
  simp only [Option.some.injEq, Prod.mk.injEq, String.toList_inj] at cut
  exact ⟨cut.1.symm, cut.2.symm⟩

theorem variable_iff {word : String} : isVariable word = true ↔ VariableWord word := by
  unfold isVariable
  constructor
  · intro accepted
    split at accepted
    · rename_i mark name cut
      rw [Bool.and_eq_true, Option.isSome_iff_exists, identifier_iff] at accepted
      obtain ⟨⟨role, found⟩, named⟩ := accepted
      rw [FrameRole.ofMark_some_iff] at found
      obtain ⟨whole, _⟩ := Text.cutAt_some_iff.mp cut
      refine ⟨role, String.ofList name, ?_, by simpa using named⟩
      rw [← String.toList_inj, whole, found]
      simp
    · contradiction
  · rintro ⟨role, name, rfl, named⟩
    rw [(cut_word_iff (mark_plain role)).mpr rfl]
    simp only [String.ofList_toList, FrameRole.ofMark_some_iff.mpr rfl, Option.isSome_some,
      Bool.true_and]
    exact identifier_iff.mpr named

/-- A text can be read as a literal exactly when it is in the grammar of its type. -/
theorem decode_ok_iff {type : ValueType} {text : String} :
    (∃ value, Argument.decode type text = .ok value) ↔ LiteralText type text := by
  cases type with
  | int =>
    simp only [Argument.decode, LiteralText]
    cases Integer.parse? text <;> simp
  | bool =>
    simp only [Argument.decode, LiteralText]
    split
    · simp_all
    · split <;> simp_all
  | string =>
    simp only [Argument.decode, LiteralText]
    cases Escape.decodeText? text <;> simp
  | nil =>
    simp only [Argument.decode, LiteralText]
    split <;> simp_all

/-- A literal is read exactly when its text is in the grammar of its type. -/
theorem literal_ok_iff {word : String} {arg : Argument} :
    readLiteral word = .ok arg ↔ ∃ (type : ValueType) (text : String),
      word = type.name ++ "@" ++ text ∧ LiteralText type text ∧ arg = ⟨.literal type, text⟩ := by
  constructor
  · intro read
    unfold readLiteral at read
    split at read
    · cases read
    · rename_i kind text cut
      split at read
      · cases read
      · rename_i type named
        split at read
        · rename_i value decoded
          cases read
          rw [ValueType.ofName_some_iff] at named
          refine ⟨type, String.ofList text, ?_, decode_ok_iff.mp ⟨value, decoded⟩, rfl⟩
          rw [← String.toList_inj, (Text.cutAt_some_iff.mp cut).1, named]
          simp
        · cases read
  · rintro ⟨type, text, rfl, spelled, rfl⟩
    obtain ⟨value, decoded⟩ := decode_ok_iff.mpr spelled
    simp only [readLiteral, (cut_word_iff (type_name_plain type)).mpr rfl, String.ofList_toList,
      ValueType.ofName_some_iff.mpr rfl, decoded]

/-- A literal that is not read was to be one if the name of a type and an at sign
stand before its text. -/
theorem missed_of_literal_error {word : String} {expected : Expected}
    (refused : readLiteral word = .error expected) : Missed .symb word expected := by
  unfold readLiteral at refused
  split at refused
  · rename_i uncut
    cases refused
    refine .symbol fun type text same => ?_
    rw [(cut_word_iff (type_name_plain type)).mpr same] at uncut
    cases uncut
  · rename_i kind text cut
    split at refused
    · rename_i unknown
      cases refused
      refine .symbol fun type text' same => ?_
      rw [(cut_word_iff (type_name_plain type)).mpr same] at cut
      cases cut
      rw [String.ofList_toList, ValueType.ofName_some_iff.mpr rfl] at unknown
      cases unknown
    · rename_i type named
      split at refused
      · cases refused
      · cases refused
        rw [ValueType.ofName_some_iff] at named
        have whole : word = type.name ++ "@" ++ String.ofList text := by
          rw [← String.toList_inj, (Text.cutAt_some_iff.mp cut).1, named]
          simp
        exact whole ▸ .literal type _

/-- No frame is named like a type. -/
theorem mark_ne_type_name (role : FrameRole) (type : ValueType) : role.mark ≠ type.name := by
  cases role <;> cases type <;> decide

theorem literal_not_variable (type : ValueType) (text : String) :
    ¬ VariableWord (type.name ++ "@" ++ text) := by
  rintro ⟨role, name, same, _⟩
  have parts := marked_word_unique (type_name_plain type) (mark_plain role) same
  exact mark_ne_type_name role type parts.1.symm

/-- A word is read at a position exactly when it spells an argument there. -/
theorem operand_ok_iff {shape : Shape} {word : String} {arg : Argument} :
    readOperand shape word = .ok arg ↔ Spells shape word arg := by
  constructor
  · intro read
    cases shape with
    | var =>
      simp only [readOperand] at read
      split at read
      · rename_i named
        cases read
        exact .varRef (variable_iff.mp named)
      · cases read
    | symb =>
      simp only [readOperand] at read
      split at read
      · rename_i named
        cases read
        exact .symbol (variable_iff.mp named)
      · obtain ⟨type, text, rfl, spelled, rfl⟩ := literal_ok_iff.mp read
        exact .literal spelled
    | label =>
      simp only [readOperand] at read
      split at read
      · rename_i named
        cases read
        exact .label (identifier_iff.mp named)
      · cases read
    | type =>
      simp only [readOperand] at read
      split at read
      · rename_i known
        cases read
        obtain ⟨type, named⟩ := Option.isSome_iff_exists.mp known
        rw [ValueType.ofName_some_iff] at named
        exact named ▸ .type type
      · cases read
  · intro spelled
    cases spelled with
    | varRef named => simp only [readOperand, variable_iff.mpr named, ↓reduceIte]
    | symbol named => simp only [readOperand, variable_iff.mpr named, ↓reduceIte]
    | @literal type text spelled =>
      simp only [readOperand, variable_iff, literal_not_variable type text, ↓reduceIte]
      exact literal_ok_iff.mpr ⟨type, text, rfl, spelled, rfl⟩
    | label named => simp only [readOperand, identifier_iff.mpr named, ↓reduceIte]
    | type type => simp [readOperand, ValueType.ofName_some_iff.mpr rfl]

private theorem missed_unique {shape : Shape} {word : String} {expected expected' : Expected}
    (missed : Missed shape word expected) (missed' : Missed shape word expected') :
    expected = expected' := by
  cases missed with
  | varRef | label | type => cases missed'; rfl
  | literal type text =>
    generalize whole : type.name ++ "@" ++ text = word at missed'
    cases missed' with
    | literal => rfl
    | symbol unmarked => exact absurd whole.symm (unmarked type text)
  | symbol unmarked =>
    cases missed' with
    | literal type text => exact absurd rfl (unmarked type text)
    | symbol => rfl

/-- A word is refused at a position exactly when it spells nothing there, and the
refusal names what was asked for. -/
theorem operand_error_iff {shape : Shape} {word : String} {expected : Expected} :
    readOperand shape word = .error expected ↔
      (∀ arg, ¬ Spells shape word arg) ∧ Missed shape word expected := by
  have sound : ∀ {found}, readOperand shape word = .error found → Missed shape word found := by
    intro found refused
    cases shape with
    | var | label | type =>
      simp only [readOperand] at refused
      split at refused
      · cases refused
      · cases refused
        constructor
    | symb =>
      simp only [readOperand] at refused
      split at refused
      · cases refused
      · exact missed_of_literal_error refused
  constructor
  · intro refused
    refine ⟨fun arg spelled => ?_, sound refused⟩
    rw [operand_ok_iff.mpr spelled] at refused
    cases refused
  · rintro ⟨nothing, missed⟩
    cases read : readOperand shape word with
    | ok arg => exact absurd (operand_ok_iff.mp read) (nothing arg)
    | error found => rw [missed_unique (sound read) missed]

theorem SpellsAll.length {shapes : List Shape} {words : List String} {args : List Argument}
    (spelled : SpellsAll shapes words args) :
    words.length = shapes.length ∧ args.length = shapes.length := by
  induction spelled with
  | nil => exact ⟨rfl, rfl⟩
  | cons _ _ ih => exact ⟨congrArg (· + 1) ih.1, congrArg (· + 1) ih.2⟩

/-- Every argument that words spell is spelled by one of them. -/
theorem SpellsAll.word_of_arg {shapes : List Shape} {words : List String} {args : List Argument}
    (spelled : SpellsAll shapes words args) :
    ∀ arg ∈ args, ∃ shape, ∃ word ∈ words, Spells shape word arg := by
  induction spelled with
  | nil => simp
  | @cons shape word _ _ _ _ first _ ih =>
    intro arg member
    rcases List.mem_cons.mp member with rfl | later
    · exact ⟨shape, word, List.mem_cons_self, first⟩
    · obtain ⟨shape, word, held, spells⟩ := ih arg later
      exact ⟨shape, word, List.mem_cons_of_mem _ held, spells⟩

/-- As many words as there are positions are read exactly when each of them spells an
argument. -/
theorem operands_ok_iff {shapes : List Shape} {words : List String} {args : List Argument}
    (counted : words.length = shapes.length) :
    readOperands shapes words = .ok args ↔ SpellsAll shapes words args := by
  induction shapes generalizing words args with
  | nil =>
    cases List.eq_nil_of_length_eq_zero counted
    simp only [readOperands, Except.ok.injEq]
    constructor
    · rintro rfl
      exact .nil
    · rintro ⟨⟩
      rfl
  | cons shape shapes ih =>
    cases words with
    | nil => cases counted
    | cons word words =>
      have rest := fun args => @ih words args (Nat.succ.inj counted)
      constructor
      · intro read
        rw [readOperands] at read
        split at read
        · cases read
        · rename_i arg first
          split at read
          · cases read
          · rename_i others following
            cases read
            exact .cons (operand_ok_iff.mp first) ((rest others).mp following)
      · rintro ⟨⟩
        rename_i arg args first others
        rw [readOperands, operand_ok_iff.mpr first]
        simp only [(rest args).mpr others]

/-- The first word that spells nothing is the one that is reported. -/
theorem operands_error_iff {shapes : List Shape} {words : List String} {problem : Problem}
    (counted : words.length = shapes.length) :
    readOperands shapes words = .error problem ↔ FirstMissed shapes words problem := by
  induction shapes generalizing words with
  | nil =>
    cases List.eq_nil_of_length_eq_zero counted
    simp only [readOperands, reduceCtorEq, false_iff]
    rintro ⟨⟩
  | cons shape shapes ih =>
    cases words with
    | nil => cases counted
    | cons word words =>
      have rest := @ih words (Nat.succ.inj counted)
      constructor
      · intro refused
        rw [readOperands] at refused
        split at refused
        · rename_i expected first
          cases refused
          obtain ⟨nothing, missed⟩ := operand_error_iff.mp first
          exact .here nothing missed
        · rename_i arg first
          split at refused
          · rename_i found following
            cases refused
            exact .later (operand_ok_iff.mp first) (rest.mp following)
          · cases refused
      · intro missed
        cases missed with
        | here nothing missed =>
          rw [readOperands, operand_error_iff.mpr ⟨nothing, missed⟩]
        | later first others =>
          rw [readOperands, operand_ok_iff.mpr first]
          simp only [rest.mpr others]

/-- The words of a line are read exactly when they make an instruction. -/
theorem words_ok_iff {words : List String} {opcode : Opcode} {args : List Argument} :
    readWords words = .ok (opcode, args) ↔ Instructs words opcode args := by
  constructor
  · intro read
    unfold readWords at read
    split at read
    · cases read
    · rename_i mnemonic operands
      split at read
      · cases read
      · split at read
        · cases read
        · rename_i found known
          split at read
          · rename_i counted
            cases following : readOperands found.operands operands with
            | error problem => simp [following, Except.map] at read
            | ok spelled =>
              simp only [following, Except.map, Except.ok.injEq, Prod.mk.injEq] at read
              obtain ⟨rfl, rfl⟩ := read
              exact ⟨mnemonic, operands, rfl, Opcode.ofMnemonic_some_iff.mp known,
                (operands_ok_iff counted).mp following⟩
          · cases read
  · rintro ⟨mnemonic, operands, rfl, known, spelled⟩
    have placed := mnemonic_not_header known
    have counted : operands.length = opcode.arity := spelled.length.1
    rw [readWords, if_neg (by simp [placed]), Opcode.ofMnemonic_some_iff.mpr known]
    simp only [counted, ↓reduceIte, (operands_ok_iff counted).mpr spelled, Except.map]

/-- The words of a line are refused exactly when something is wrong with them, and the
refusal is the first thing that is. -/
theorem words_error_iff {words : List String} {problem : Problem} (filled : words ≠ []) :
    readWords words = .error problem ↔ Offends words problem := by
  constructor
  · intro refused
    unfold readWords at refused
    split at refused
    · contradiction
    · rename_i mnemonic operands
      split at refused
      · rename_i header
        cases refused
        exact .header header
      · rename_i placed
        rw [Bool.not_eq_true] at placed
        split at refused
        · rename_i unknown
          cases refused
          exact .mnemonic placed (Opcode.ofMnemonic_none_iff.mp unknown)
        · rename_i found known
          rw [Opcode.ofMnemonic_some_iff] at known
          split at refused
          · rename_i counted
            cases following : readOperands found.operands operands with
            | ok spelled => simp [following, Except.map] at refused
            | error reason =>
              simp only [following, Except.map, Except.error.injEq] at refused
              subst refused
              exact .operand known counted ((operands_error_iff counted).mp following)
          · rename_i different
            cases refused
            exact .count known different
  · intro offends
    cases offends with
    | header misplaced => rw [readWords, if_pos misplaced]
    | mnemonic placed unknown =>
      rw [readWords, if_neg (by simp [placed]), Opcode.ofMnemonic_none_iff.mpr unknown]
    | count known different =>
      have placed := mnemonic_not_header known
      rw [readWords, if_neg (by simp [placed]), Opcode.ofMnemonic_some_iff.mpr known]
      simp only [different, ↓reduceIte]
    | operand known counted missed =>
      have placed := mnemonic_not_header known
      rw [readWords, if_neg (by simp [placed]), Opcode.ofMnemonic_some_iff.mpr known]
      simp only [counted, ↓reduceIte, (operands_error_iff counted).mpr missed, Except.map]

end Framecode.Source
