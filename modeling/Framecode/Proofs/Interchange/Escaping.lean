import Framecode.Interchange.Write
import Framecode.Proofs.Xml.Tags
import Mathlib.Data.Bool.AllAny

/-! Escaped texts and what they are read as. An escaped text holds no markup, and each
of its references stands for the character it was written for; what reading may still
change are line ends, and those only where a carriage return stands. -/
namespace Framecode.Interchange

/-- A character is written as itself, or as a reference to it between an ampersand and a
semicolon. -/
theorem escapeChar_cases (c : Char) :
    (escapeChar c = [c] ∧ c ≠ '&' ∧ c ≠ '<' ∧ c ≠ '>') ∨
    (Xml.isAllowed c = true ∧ ∃ name, escapeChar c = '&' :: (name ++ [';']) ∧
      Xml.reference? name = some c ∧
      ∀ d ∈ name, Xml.isAllowed d = true ∧ d ≠ ';' ∧ d ≠ '<' ∧ d ≠ '>') := by
  by_cases ampersand : c = '&'
  · subst ampersand
    exact .inr ⟨by decide, ['a', 'm', 'p'], rfl, rfl, List.all_iff_forall_prop.mp (by decide)⟩
  by_cases opening : c = '<'
  · subst opening
    exact .inr ⟨by decide, ['l', 't'], rfl, rfl, List.all_iff_forall_prop.mp (by decide)⟩
  by_cases closing : c = '>'
  · subst closing
    exact .inr ⟨by decide, ['g', 't'], rfl, rfl, List.all_iff_forall_prop.mp (by decide)⟩
  by_cases quote : c = '"'
  · subst quote
    exact .inr ⟨by decide, ['q', 'u', 'o', 't'], rfl, rfl, List.all_iff_forall_prop.mp (by decide)⟩
  by_cases apostrophe : c = '\x27'
  · subst apostrophe
    exact .inr ⟨by decide, ['a', 'p', 'o', 's'], rfl, rfl, List.all_iff_forall_prop.mp (by decide)⟩
  refine .inl ⟨?_, ampersand, opening, closing⟩
  simp [escapeChar, ampersand, opening, closing, quote, apostrophe]

/-- No character of an escaped text opens or closes markup. -/
theorem escaped_unmarked {text : List Char} {d : Char} (member : d ∈ text.flatMap escapeChar) :
    d ≠ '<' ∧ d ≠ '>' := by
  obtain ⟨c, _, spelled⟩ := List.mem_flatMap.mp member
  rcases escapeChar_cases c with ⟨itself, _, notOpening, notClosing⟩ | ⟨_, name, named, _, inside⟩
  · rw [itself, List.mem_singleton] at spelled
    exact spelled ▸ ⟨notOpening, notClosing⟩
  · rw [named, List.mem_cons, List.mem_append, List.mem_singleton] at spelled
    rcases spelled with rfl | inName | rfl
    · decide
    · exact (inside d inName).2.2
    · decide

/-- Escaping neither brings in a forbidden character nor hides one. -/
theorem escaped_allowed (text : List Char) :
    (text.flatMap escapeChar).all Xml.isAllowed = text.all Xml.isAllowed := by
  have single : ∀ c, (escapeChar c).all Xml.isAllowed = Xml.isAllowed c := by
    intro c
    rcases escapeChar_cases c with ⟨itself, _⟩ | ⟨allowed, name, named, _, inside⟩
    · simp [itself]
    · have nameAllowed : name.all Xml.isAllowed = true :=
        List.all_eq_true.mpr fun d member => (inside d member).1
      rw [named, List.all_cons, List.all_append, nameAllowed, allowed]
      decide
  rw [List.all_flatMap]
  exact congrArg text.all (funext single)

/-- A character of a text, told apart by how it is written. -/
def pieceOf (c : Char) : Xml.Piece := if escapeChar c = [c] then .plain c else .referenced c

private theorem pieces_escaped (text : List Char) :
    Xml.pieces? (text.flatMap escapeChar) = some (text.map pieceOf) := by
  induction text with
  | nil => rw [List.flatMap_nil, Xml.pieces?]; rfl
  | cons c rest ih =>
    rw [List.flatMap_cons, List.map_cons]
    rcases escapeChar_cases c with ⟨itself, other, _⟩ | ⟨_, name, named, stands, inside⟩
    · rw [pieceOf, if_pos itself, itself, List.singleton_append, Xml.pieces?, if_neg other, ih]
      rfl
    · have ended : Text.cutAt? ';' (name ++ ';' :: rest.flatMap escapeChar) =
          some (name, rest.flatMap escapeChar) :=
        Text.cutAt_some_iff.mpr ⟨rfl, fun member => (inside ';' member).2.1 rfl⟩
      have differs : escapeChar c ≠ [c] := by
        intro same
        have lengths := congrArg List.length (named.symm.trans same)
        simp at lengths
      rw [pieceOf, if_neg differs, named, List.cons_append, List.append_assoc, List.singleton_append,
        Xml.pieces_reference ended stands, ih]
      rfl

/-- Line ends stay as they are in a text without carriage returns. -/
theorem normalLines_unreturned {text : List Char} (plain : '\r' ∉ text) (exempt : Bool) :
    Xml.normalLines false exempt (text.map pieceOf) = text := by
  induction text generalizing exempt with
  | nil => rfl
  | cons c rest ih =>
    rw [List.mem_cons, not_or] at plain
    have other : c ≠ '\r' := Ne.symm plain.1
    have following := ih plain.2
    rw [List.map_cons, pieceOf]
    split
    · simp [Xml.normalLines, other, following]
    · simp [Xml.normalLines, other, following]

/-- What the written text of an argument is read as. -/
def content (text : String) : String :=
  String.ofList (Xml.normalLines false false (text.toList.map pieceOf))

theorem content_unreturned {text : String} (plain : '\r' ∉ text.toList) : content text = text := by
  rw [content, normalLines_unreturned plain, String.ofList_toList]

theorem textContent_escaped {text : String} (allowed : text.toList.all Xml.isAllowed = true) :
    Xml.textContent? (text.toList.flatMap escapeChar) = some (content text) := by
  have unended : Text.cutAtAll? [']', ']', '>'] (text.toList.flatMap escapeChar) = none := by
    cases cut : Text.cutAtAll? [']', ']', '>'] (text.toList.flatMap escapeChar) with
    | none => rfl
    | some parts =>
      have member : '>' ∈ text.toList.flatMap escapeChar := by
        rw [Text.eq_of_cutAtAll? cut]
        simp
      exact absurd rfl (escaped_unmarked member).2
  rw [Xml.textContent?, escaped_allowed, allowed, unended, pieces_escaped]
  rfl

end Framecode.Interchange
