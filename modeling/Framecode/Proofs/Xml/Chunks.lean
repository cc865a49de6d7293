import Framecode.Proofs.Text.Pieces
import Framecode.Xml.Tree

/-! Chunks of documents that are written as tags with texts between them. Such a
document is cut where its tags stand, provided that no text holds an opening bracket
and no tag holds a closing one outside its quotes. -/
namespace Framecode.Xml

/-! ## The ends of tags -/

/-- What may stand between the brackets of a tag: the next closing bracket after it ends
the tag, and nothing at its start makes it a piece of markup of another kind. -/
structure TagBody (body : List Char) : Prop where
  closes : ∀ following, cutTag? none (body ++ '>' :: following) = some (body, following)
  ordinary : ∃ first rest, body = first :: rest ∧ first ≠ '!' ∧ first ≠ '?'

theorem cutTag_cons {c : Char} (text : List Char) (unquoted : isQuote c = false) (other : c ≠ '>') :
    cutTag? none (c :: text) =
      (cutTag? none text).map fun parts => (c :: parts.1, parts.2) := by
  rw [cutTag?]
  simp only [Option.isNone_none, Bool.true_and, beq_iff_eq, other, if_false, unquoted,
    Bool.false_eq_true]

/-- Characters outside of quotes neither close a tag nor open a quote. -/
theorem cutTag_unquoted {lead : List Char} (text : List Char)
    (plain : ∀ c ∈ lead, isQuote c = false ∧ c ≠ '>') :
    cutTag? none (lead ++ text) =
      (cutTag? none text).map fun parts => (lead ++ parts.1, parts.2) := by
  induction lead with
  | nil => simp
  | cons c lead ih =>
    obtain ⟨unquoted, other⟩ := plain c List.mem_cons_self
    rw [List.cons_append, cutTag_cons _ unquoted other,
      ih fun d member => plain d (List.mem_cons_of_mem _ member), Option.map_map]
    rfl

theorem cutTag_quoted {value : List Char} (text : List Char) (plain : '"' ∉ value) :
    cutTag? (some '"') (value ++ '"' :: text) =
      (cutTag? none text).map fun parts => (value ++ '"' :: parts.1, parts.2) := by
  induction value with
  | nil => simp [cutTag?]
  | cons c value ih =>
    rw [List.mem_cons, not_or] at plain
    rw [List.cons_append, cutTag?]
    simp only [Option.isNone_some, Bool.false_and, Bool.false_eq_true, if_false, beq_iff_eq,
      Ne.symm plain.1, ih plain.2, Option.map_map]
    rfl

/-! ## One chunk -/

private theorem chunk_tag {body following : List Char} (closed : TagBody body) :
    chunk? ('<' :: (body ++ '>' :: following)) = some (.tag body, following) := by
  obtain ⟨first, rest, rfl, notBang, notQuestion⟩ := closed.ordinary
  have cut := closed.closes following
  rw [List.cons_append] at cut ⊢
  simp [chunk?, Text.after?, Ne.symm notBang, Ne.symm notQuestion, cut]

theorem chunk_text {c : Char} {text following : List Char} (plain : '<' ∉ c :: text)
    (ends : following.head?.any (· != '<') = false) :
    chunk? (c :: text ++ following) = some (.text (c :: text), following) := by
  have inside : ∀ d ∈ c :: text, (d != '<') = true := by
    intro d member
    rw [bne_iff_ne]
    rintro rfl
    exact plain member
  have other : '<' ≠ c := by
    rintro rfl
    exact plain List.mem_cons_self
  have whole : chunk? (c :: text ++ following) =
      some (.text ((c :: text ++ following).takeWhile (· != '<')),
        (c :: text ++ following).dropWhile (· != '<')) := by
    simp [chunk?, Text.after?, other]
  obtain ⟨taken, dropped⟩ := Text.run_ends inside ends
  rw [whole, taken, dropped]

/-! ## All chunks -/

/-- A tag and the text before it. -/
structure Mark where
  before : List Char
  body : List Char

namespace Mark

def render (mark : Mark) : List Char := mark.before ++ '<' :: (mark.body ++ ['>'])

/-- A mark that is cut as it is written. -/
structure Clean (mark : Mark) : Prop where
  before : '<' ∉ mark.before
  body : TagBody mark.body

end Mark

/-- The chunk of a text, if it is not empty. -/
def textChunk : List Char → List Chunk
  | [] => []
  | c :: rest => [.text (c :: rest)]

def Mark.chunks (mark : Mark) : List Chunk := textChunk mark.before ++ [.tag mark.body]

theorem text_mem_chunks {mark : Mark} {c : Char} (member : c ∈ mark.before) :
    .text mark.before ∈ mark.chunks := by
  obtain ⟨before, body⟩ := mark
  cases before with
  | nil => cases member
  | cons first rest => exact List.mem_cons_self

/-- The chunks of a text, wherever in a document it starts. -/
def CutInto (text : List Char) (chunks : List Chunk) : Prop :=
  ∀ line, ∃ located, chunks? line text = some located ∧ located.map Located.chunk = chunks

theorem chunks_cons {line : Nat} {text following : List Char} {chunk : Chunk}
    (first : chunk? text = some (chunk, following)) (filled : text ≠ []) :
    chunks? line text =
      (chunks? (line + chunk.body.count '\n') following).map (⟨line, chunk⟩ :: ·) := by
  obtain ⟨c, text, rfl⟩ := List.exists_cons_of_ne_nil filled
  rw [chunks?]
  split
  · rename_i missing
    rw [first] at missing
    cases missing
  · rename_i again
    rw [first] at again
    cases again
    rfl

private theorem cutInto_cons {text following : List Char} {chunk : Chunk} {chunks : List Chunk}
    (first : chunk? text = some (chunk, following)) (filled : text ≠ [])
    (rest : CutInto following chunks) : CutInto text (chunk :: chunks) := by
  intro line
  obtain ⟨located, found, same⟩ := rest (line + chunk.body.count '\n')
  refine ⟨⟨line, chunk⟩ :: located, ?_, by simp [same]⟩
  rw [chunks_cons first filled, found]
  rfl

private theorem cutInto_text {text following : List Char} {chunks : List Chunk} (plain : '<' ∉ text)
    (ends : following.head?.any (· != '<') = false) (rest : CutInto following chunks) :
    CutInto (text ++ following) (textChunk text ++ chunks) := by
  cases text with
  | nil => exact rest
  | cons c text => exact cutInto_cons (chunk_text plain ends) (by simp) rest

/-- Marks are cut at their tags. -/
theorem cutInto_marks {marks : List Mark} {tail : List Char} (clean : ∀ mark ∈ marks, mark.Clean)
    (plain : '<' ∉ tail) :
    CutInto (marks.flatMap Mark.render ++ tail) (marks.flatMap Mark.chunks ++ textChunk tail) := by
  have none : CutInto [] [] := fun line => ⟨[], by rw [chunks?], rfl⟩
  induction marks with
  | nil => simpa using cutInto_text plain (by simp) none
  | cons mark marks ih =>
    obtain ⟨before, body⟩ := clean mark List.mem_cons_self
    have rest := ih fun other member => clean other (List.mem_cons_of_mem _ member)
    have tagged := cutInto_cons (chunk_tag body) (by simp) rest
    have whole := cutInto_text before (by simp) tagged
    simpa [Mark.render, Mark.chunks] using whole

end Framecode.Xml
