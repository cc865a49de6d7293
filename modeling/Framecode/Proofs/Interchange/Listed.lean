import Framecode.Proofs.Interchange.RoundTrip
import Framecode.Proofs.Source.RoundTrip

/-! Documents of programs that come from source text. The grammar of source lines leaves a
document little to lose: such a program is in order, its arguments are counted, and its
texts have no blanks. What the grammar does let through is a control character in a string,
which no document may hold. -/
namespace Framecode.Interchange

open Source

/-- The code points that no document may hold. -/
def forbiddenRanges : List (Nat × Nat) := [(0x0, 0x8), (0xB, 0xC), (0xE, 0x1F), (0xFFFE, 0xFFFF)]

private theorem forbiddenChar_iff {c : Char} :
    ForbiddenChar c ↔ Text.inRanges forbiddenRanges c = true := by
  have tab : c = '\t' ↔ c.toNat = 0x9 := Char.toNat_inj.symm
  have feed : c = '\n' ↔ c.toNat = 0xA := Char.toNat_inj.symm
  have ret : c = '\r' ↔ c.toNat = 0xD := Char.toNat_inj.symm
  simp only [ForbiddenChar, ne_eq, tab, feed, ret, Text.inRanges, forbiddenRanges, List.any_cons,
    List.any_nil, Bool.or_false, Bool.or_eq_true, Bool.and_eq_true, decide_eq_true_eq]
  omega

/-- A document may hold all characters that words are made of. -/
theorem inWord_not_forbidden {c : Char} (inside : InWord c) : ¬ForbiddenChar c := by
  rw [forbiddenChar_iff, not_inRanges_of_apart (by decide +kernel) inside]
  exact Bool.false_ne_true

/-- No string literal of a program holds a character that a document may not hold. -/
def Printable (program : Program) : Prop :=
  ∀ instr ∈ program.instructions, ∀ arg ∈ instr.args, arg.kind = .literal .string →
    ∀ c ∈ arg.text.toList, ¬ForbiddenChar c

/-- The text of an argument in the grammar is made of characters of words, strings apart. -/
theorem text_inWord {arg : Argument} (spelled : InGrammar arg)
    (other : arg.kind ≠ .literal .string) : ∀ c ∈ arg.text.toList, InWord c := by
  obtain ⟨kind, text⟩ := arg
  cases kind with
  | var => exact variable_inWord spelled
  | label => exact identifier_inWord spelled
  | typeName =>
    obtain ⟨type, rfl⟩ : ∃ type : ValueType, text = type.name := spelled
    cases type <;> exact inWord_of_asciiText (by decide)
  | literal type =>
    cases type with
    | int => exact @literal_inWord .int _ spelled (by simp)
    | bool => exact @literal_inWord .bool _ spelled (by simp)
    | nil => exact @literal_inWord .nil _ spelled (by simp)
    | string => contradiction

/-- No text of the grammar has a blank in it. -/
theorem text_unbroken {arg : Argument} (spelled : InGrammar arg) :
    ∀ c ∈ arg.text.toList, Text.isBlank c = false := by
  intro c member
  by_cases string : arg.kind = .literal .string
  · obtain ⟨kind, text⟩ := arg
    cases string
    exact (spelled.2 c member).1
  · exact (inWord_plain (text_inWord spelled string c member)).1

section

variable {program : Program} (listable : Listable program)
include listable

/-- Only a string can hold a forbidden character. -/
theorem forbidden_iff_not_printable :
    Forbidden program.instructions ↔ ¬Printable program := by
  constructor
  · rintro ⟨instr, member, arg, argMember, c, held, forbidden⟩ printable
    by_cases string : arg.kind = .literal .string
    · exact printable instr member arg argMember string c held forbidden
    · have spelled := listable.spelled instr member arg argMember
      exact inWord_not_forbidden (text_inWord spelled string c held) forbidden
  · intro unprintable
    simp only [Printable, not_forall, not_not] at unprintable
    obtain ⟨instr, member, arg, argMember, _, c, held, forbidden⟩ := unprintable
    exact ⟨instr, member, arg, argMember, c, held, forbidden⟩

/-- A program that a text could spell comes back from its document if all its strings can
be printed, and otherwise its document is malformed. -/
theorem read_write_listable :
    (Printable program → read (write program) = .ok program) ∧
    (¬Printable program → read (write program) = .error .malformed) := by
  refine ⟨fun printable => ?_, fun unprintable =>
    read_forbidden ((forbidden_iff_not_printable listable).mpr unprintable)⟩
  have clear : ¬Forbidden program.instructions :=
    fun forbidden => (forbidden_iff_not_printable listable).mp forbidden printable
  have counted : ¬Miscounted program.instructions := by
    rintro ⟨instr, member, miscounted⟩
    have formed := listable.formed instr member
    rw [Instruction.isWellFormed, Bool.and_eq_true, beq_iff_eq] at formed
    exact miscounted formed.1
  have unbroken : ∀ instr ∈ program.instructions, ∀ arg ∈ instr.args, ∀ c ∈ arg.text.toList,
      Text.isBlank c = false :=
    fun instr member arg argMember => text_unbroken (listable.spelled instr member arg argMember)
  have plain : ∀ instr ∈ program.instructions, ∀ arg ∈ instr.args, '\r' ∉ arg.text.toList := by
    intro instr member arg argMember held
    exact absurd (unbroken instr member arg argMember _ held) (by decide)
  have bare : ∀ instr ∈ program.instructions, ∀ arg ∈ instr.args, Text.Bare arg.text.toList :=
    fun instr member arg argMember =>
      Text.trim_eq_self_iff.mp (Text.trim_unbroken (unbroken instr member arg argMember))
  have ordered := sorted_eq_self_iff.mp (sorted_of_numbered listable.numbered)
  rw [read_counted clear counted, (recovered_program_iff plain).mpr ⟨ordered, bare⟩]

end

end Framecode.Interchange
