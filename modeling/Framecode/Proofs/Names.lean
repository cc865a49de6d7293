import Framecode.Program
import Framecode.Source.Header
import Mathlib.Data.List.Nodup

/-! Names of types, kinds, frames and opcodes. Every table of names is complete and
has no name twice, so looking up a name finds exactly what it names. Mnemonics are
told apart even when ASCII case is ignored, and none of them is the header. -/
namespace Framecode

/-- In a complete table without repeated names, a search by name finds what the name
belongs to, and nothing else. -/
theorem find_named_iff {α β : Type} [BEq β] [LawfulBEq β] {table : List α} {nameOf : α → β}
    {name : β} {item : α} (complete : ∀ item, item ∈ table) (distinct : (table.map nameOf).Nodup) :
    table.find? (fun item => nameOf item == name) = some item ↔ nameOf item = name := by
  constructor
  · intro found
    simpa using List.find?_some found
  · rintro rfl
    cases found : table.find? (fun other => nameOf other == nameOf item) with
    | none =>
      have missed := List.find?_eq_none.mp found item (complete item)
      simp at missed
    | some other =>
      have same : nameOf other = nameOf item := by simpa using List.find?_some found
      rw [List.inj_on_of_nodup_map distinct (complete other) (complete item) same]

private theorem ValueType.mem_all (type : ValueType) : type ∈ ValueType.all := by
  cases type <;> decide

theorem ValueType.ofName_some_iff {name : String} {type : ValueType} :
    ValueType.ofName? name = some type ↔ type.name = name :=
  find_named_iff ValueType.mem_all (by decide)

private theorem ArgKind.mem_all (kind : ArgKind) : kind ∈ ArgKind.all := by
  cases kind with
  | literal type => cases type <;> decide
  | var | label | typeName => decide

theorem ArgKind.ofName_some_iff {name : String} {kind : ArgKind} :
    ArgKind.ofName? name = some kind ↔ kind.name = name :=
  find_named_iff ArgKind.mem_all (by decide)

private theorem FrameRole.mem_all (role : FrameRole) : role ∈ FrameRole.all := by
  cases role <;> decide

theorem FrameRole.ofMark_some_iff {mark : String} {role : FrameRole} :
    FrameRole.ofMark? mark = some role ↔ role.mark = mark :=
  find_named_iff FrameRole.mem_all (by decide)

private theorem Opcode.mem_all (opcode : Opcode) : opcode ∈ Opcode.all := by
  cases opcode <;> decide

/-- A word stands for an opcode exactly when it is the mnemonic in some ASCII case. -/
theorem Opcode.ofMnemonic_some_iff {word : String} {opcode : Opcode} :
    Opcode.ofMnemonic? word = some opcode ↔ Text.sameWord opcode.mnemonic word = true := by
  have distinct : (Opcode.all.map fun opcode => Text.foldCase opcode.mnemonic).Nodup := by
    decide +kernel
  rw [Text.sameWord, beq_iff_eq]
  exact find_named_iff Opcode.mem_all distinct

theorem Opcode.ofMnemonic_none_iff {word : String} :
    Opcode.ofMnemonic? word = none ↔ ∀ opcode : Opcode, Text.sameWord opcode.mnemonic word = false := by
  rw [Option.eq_none_iff_forall_ne_some]
  simp only [ne_eq, Opcode.ofMnemonic_some_iff, Bool.not_eq_true]

theorem Opcode.mnemonic_injective : Function.Injective Opcode.mnemonic := by
  intro left right same
  have leftFound : Opcode.ofMnemonic? right.mnemonic = some left :=
    Opcode.ofMnemonic_some_iff.mpr (by rw [same, Text.sameWord, beq_self_eq_true])
  have rightFound : Opcode.ofMnemonic? right.mnemonic = some right :=
    Opcode.ofMnemonic_some_iff.mpr (by rw [Text.sameWord, beq_self_eq_true])
  exact Option.some.inj (leftFound.symm.trans rightFound)

/-- No mnemonic is the header, in whatever case the two are written. -/
theorem mnemonic_not_header {opcode : Opcode} {word : String}
    (known : Text.sameWord opcode.mnemonic word = true) : Source.isHeader word = false := by
  rw [Text.sameWord, beq_iff_eq] at known
  rw [Source.isHeader, Text.sameWord, ← known]
  cases opcode <;> decide

end Framecode
