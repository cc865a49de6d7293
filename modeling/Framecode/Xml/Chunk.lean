import Framecode.Text.Cut

/-! Chunks of a document: pieces of markup, and the texts between them. Cutting
a document into chunks loses no character and looks only for the ends of the
pieces; what a chunk holds is read later. -/
namespace Framecode.Xml

/-- A piece of a document, without the characters that delimit it. -/
inductive Chunk where
  | text (body : List Char)
  | comment (body : List Char)
  | cdata (body : List Char)
  | processing (body : List Char)
  | tag (body : List Char)
  deriving DecidableEq, Repr

namespace Chunk

/-- The characters that a chunk holds between its delimiters. -/
def body : Chunk → List Char
  | .text body | .comment body | .cdata body | .processing body | .tag body => body

/-- The text of a chunk in a document. -/
def render : Chunk → List Char
  | .text body => body
  | .comment body => ['<', '!', '-', '-'] ++ body ++ ['-', '-', '>']
  | .cdata body => ['<', '!', '[', 'C', 'D', 'A', 'T', 'A', '['] ++ body ++ [']', ']', '>']
  | .processing body => ['<', '?'] ++ body ++ ['?', '>']
  | .tag body => ['<'] ++ body ++ ['>']

end Chunk

/-- A chunk and the line it starts on, counted from one. -/
structure Located where
  line : Nat
  chunk : Chunk
  deriving DecidableEq, Repr

/-- Whether a character opens a quoted value. -/
def isQuote (c : Char) : Bool := c == '"' || c == '\x27'

/-- The rest of a tag up to its closing bracket, and what follows. A bracket
inside a quoted value does not close the tag; `quote` is the quote that such a
value was opened with. -/
def cutTag? (quote : Option Char) : List Char → Option (List Char × List Char)
  | [] => none
  | c :: rest =>
    if quote.isNone && c == '>' then some ([], rest)
    else
      let inside := match quote with
        | none => if isQuote c then some c else none
        | some q => if c == q then none else some q
      (cutTag? inside rest).map fun parts => (c :: parts.1, parts.2)

/-- The first chunk of a text that is not empty, and what follows it. A
declaration other than a comment or a character data section is refused. -/
def chunk? (text : List Char) : Option (Chunk × List Char) :=
  match Text.after? ['<', '!', '-', '-'] text with
  | some rest => (Text.cutAtAll? ['-', '-', '>'] rest).map fun parts => (.comment parts.1, parts.2)
  | none =>
  match Text.after? ['<', '!', '[', 'C', 'D', 'A', 'T', 'A', '['] text with
  | some rest => (Text.cutAtAll? [']', ']', '>'] rest).map fun parts => (.cdata parts.1, parts.2)
  | none =>
  match Text.after? ['<', '!'] text with
  | some _ => none
  | none =>
  match Text.after? ['<', '?'] text with
  | some rest => (Text.cutAtAll? ['?', '>'] rest).map fun parts => (.processing parts.1, parts.2)
  | none =>
  match Text.after? ['<'] text with
  | some rest => (cutTag? none rest).map fun parts => (.tag parts.1, parts.2)
  | none => some (.text (text.takeWhile (· != '<')), text.dropWhile (· != '<'))

/-- A tag and what follows it make up the text. -/
theorem eq_of_cutTag? {quote : Option Char} {text body following : List Char}
    (cut : cutTag? quote text = some (body, following)) : text = body ++ '>' :: following := by
  induction text generalizing quote body with
  | nil => simp [cutTag?] at cut
  | cons c rest ih =>
    unfold cutTag? at cut
    split at cut
    · rename_i closing
      simp only [Bool.and_eq_true, beq_iff_eq] at closing
      simp only [Option.some.injEq, Prod.mk.injEq] at cut
      obtain ⟨rfl, rfl⟩ := cut
      simp [closing.2]
    · obtain ⟨parts, found, same⟩ := Option.map_eq_some_iff.mp cut
      obtain ⟨rfl, rfl⟩ := Prod.mk.injEq .. ▸ same
      rw [ih found]
      rfl

/-- A piece of markup between fixed delimiters and what follows it make up the
text. -/
theorem eq_of_delimited {lead stop text rest following : List Char} {chunk : Chunk}
    {make : List Char → Chunk} (opened : Text.after? lead text = some rest)
    (rendered : ∀ body, (make body).render = lead ++ body ++ stop)
    (cut : (Text.cutAtAll? stop rest).map (fun parts => (make parts.1, parts.2)) =
      some (chunk, following)) : text = chunk.render ++ following := by
  obtain ⟨parts, found, same⟩ := Option.map_eq_some_iff.mp cut
  obtain ⟨rfl, rfl⟩ := Prod.mk.injEq .. ▸ same
  rw [Text.after?_eq_some_iff.mp opened, Text.eq_of_cutAtAll? found, rendered]
  simp

/-- Cutting off a chunk loses nothing: the chunk and what follows make up the
text. -/
theorem eq_of_chunk? {text following : List Char} {chunk : Chunk}
    (cut : chunk? text = some (chunk, following)) : text = chunk.render ++ following := by
  unfold chunk? at cut
  split at cut
  · rename_i opened
    exact eq_of_delimited opened (fun _ => rfl) cut
  split at cut
  · rename_i opened
    exact eq_of_delimited opened (fun _ => rfl) cut
  split at cut
  · contradiction
  split at cut
  · rename_i opened
    exact eq_of_delimited opened (fun _ => rfl) cut
  split at cut
  · rename_i opened
    obtain ⟨parts, found, same⟩ := Option.map_eq_some_iff.mp cut
    obtain ⟨rfl, rfl⟩ := Prod.mk.injEq .. ▸ same
    rw [Text.after?_eq_some_iff.mp opened, eq_of_cutTag? found]
    simp [Chunk.render]
  · simp only [Option.some.injEq, Prod.mk.injEq] at cut
    obtain ⟨rfl, rfl⟩ := cut
    simp [Chunk.render]

/-- A text without an opening bracket at its start does not start with one. -/
theorem ne_bracket_of_after? {c : Char} {rest : List Char}
    (closed : Text.after? ['<'] (c :: rest) = none) : c ≠ '<' := by
  rintro rfl
  simp [Text.after?] at closed

/-- What follows the first chunk of a text that is not empty is shorter. -/
theorem length_lt_of_chunk? {c : Char} {rest following : List Char} {chunk : Chunk}
    (cut : chunk? (c :: rest) = some (chunk, following)) :
    following.length < (c :: rest).length := by
  have whole := congrArg List.length (eq_of_chunk? cut)
  rw [List.length_append] at whole
  suffices chunk.render ≠ [] by
    have := List.length_pos_iff.mpr this
    omega
  unfold chunk? at cut
  split at cut
  · obtain ⟨_, _, same⟩ := Option.map_eq_some_iff.mp cut
    obtain ⟨rfl, rfl⟩ := Prod.mk.injEq .. ▸ same
    simp [Chunk.render]
  split at cut
  · obtain ⟨_, _, same⟩ := Option.map_eq_some_iff.mp cut
    obtain ⟨rfl, rfl⟩ := Prod.mk.injEq .. ▸ same
    simp [Chunk.render]
  split at cut
  · contradiction
  split at cut
  · obtain ⟨_, _, same⟩ := Option.map_eq_some_iff.mp cut
    obtain ⟨rfl, rfl⟩ := Prod.mk.injEq .. ▸ same
    simp [Chunk.render]
  split at cut
  · obtain ⟨_, _, same⟩ := Option.map_eq_some_iff.mp cut
    obtain ⟨rfl, rfl⟩ := Prod.mk.injEq .. ▸ same
    simp [Chunk.render]
  · rename_i closed
    simp only [Option.some.injEq, Prod.mk.injEq] at cut
    obtain ⟨rfl, rfl⟩ := cut
    simp [Chunk.render, ne_bracket_of_after? closed]

/-- The chunks of a text that starts on a given line. -/
def chunks? (line : Nat) (text : List Char) : Option (List Located) :=
  match text with
  | [] => some []
  | c :: rest =>
    match found : chunk? (c :: rest) with
    | none => none
    | some (chunk, following) =>
      have := length_lt_of_chunk? found
      (chunks? (line + chunk.body.count '\n') following).map (⟨line, chunk⟩ :: ·)
termination_by text.length
decreasing_by exact this

end Framecode.Xml
