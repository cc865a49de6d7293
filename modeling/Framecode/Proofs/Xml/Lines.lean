import Framecode.Proofs.Xml.Moves
import Framecode.Proofs.Xml.Prolog

/-! Documents without line numbers. The lines that chunks start on are noted in the tree and
are never looked at while it is built, so a document without them is a function of the chunks
alone. Two documents can then be compared whose chunks stand on different lines. -/
namespace Framecode.Xml

/-! ## Trees without lines -/

/-- A node with all lines left out. -/
def Node.unlined : Node → Node
  | .element _ name attributes children => .element 0 name attributes (children.map Node.unlined)
  | .text _ content => .text 0 content
  | .gap => .gap

attribute [simp] Node.unlined

namespace Unfinished

/-- An unfinished element with all lines left out. -/
def unlined (element : Unfinished) : Unfinished :=
  { element with line := 0, children := element.children.map Node.unlined }

@[simp] theorem unlined_name (element : Unfinished) : element.unlined.name = element.name := rfl

@[simp] theorem unlined_scope (element : Unfinished) : element.unlined.scope = element.scope := rfl

@[simp] theorem unlined_node (element : Unfinished) :
    element.unlined.node = element.node.unlined := by
  simp [node, unlined, List.map_reverse]

@[simp] theorem unlined_add (element : Unfinished) (child : Node) :
    (element.add child).unlined = element.unlined.add child.unlined := rfl

@[simp] theorem unlined_addText (element : Unfinished) (line : Nat) (content : String) :
    (element.addText line content).unlined = element.unlined.addText 0 content := by
  obtain ⟨start, name, attributes, scope, children⟩ := element
  cases children with
  | nil => simp [addText, unlined, add]
  | cons latest children => cases latest <;> simp [addText, unlined, add]

end Unfinished

namespace Reading

/-- A reading with all lines left out. -/
def unlined (reading : Reading) : Reading :=
  ⟨reading.path.map Unfinished.unlined, reading.root.map Node.unlined⟩

private theorem unlined_place (reading : Reading) (node : Node) :
    (reading.place? node).map unlined = reading.unlined.place? node.unlined := by
  obtain ⟨path, root⟩ := reading
  cases path with
  | nil => cases root <;> rfl
  | cons element outer => rfl

private theorem unlined_readScope (reading : Reading) : reading.unlined.scope = reading.scope := by
  obtain ⟨path, root⟩ := reading
  cases path <;> rfl

private theorem unlined_readTag (reading : Reading) (line : Nat) (tag : Tag) :
    (reading.readTag? line tag).map unlined = reading.unlined.readTag? 0 tag := by
  cases tag with
  | finish name =>
    obtain ⟨path, root⟩ := reading
    cases path with
    | nil => rfl
    | cons element outer =>
      simp only [readTag?, unlined, List.map_cons, Unfinished.unlined_name]
      split
      · rw [unlined_place, ← Unfinished.unlined_node]
        rfl
      · rfl
  | start name raw closed =>
    simp only [readTag?, Option.bind_eq_bind, Option.map_bind, unlined_readScope]
    refine Option.bind_congr fun attributes _ => ?_
    rw [Function.comp_apply, Option.map_bind]
    refine Option.bind_congr fun found _ => ?_
    cases closed with
    | true =>
      simp only [Function.comp_apply, if_true, unlined_place, ← Unfinished.unlined_node]
      rfl
    | false =>
      obtain ⟨path, root⟩ := reading
      cases path <;> cases root <;> rfl

/-- A chunk is read in the same way on every line. -/
theorem unlined_readChunk (reading : Reading) (located : Located) :
    (reading.readChunk? located).map unlined =
      reading.unlined.readChunk? ⟨0, located.chunk⟩ := by
  obtain ⟨line, chunk⟩ := located
  obtain ⟨path, root⟩ := reading
  cases chunk with
  | comment body | processing body =>
    simp only [readChunk?]
    split
    · cases path <;> simp [readGap, unlined]
    · rfl
  | tag body =>
    simp only [readChunk?]
    cases tag? body with
    | none => rfl
    | some tag => exact unlined_readTag _ line tag
  | text body =>
    cases path with
    | nil =>
      simp only [readChunk?, unlined, List.map_nil]
      split <;> rfl
    | cons element outer =>
      simp only [readChunk?, unlined, List.map_cons]
      cases textContent? body <;> simp [unlined]
  | cdata body =>
    cases path with
    | nil => rfl
    | cons element outer =>
      simp only [readChunk?, unlined, List.map_cons]
      cases sectionContent? body <;> simp [unlined]

/-- Read chunks as if all stood on one line. -/
def readChunks? (reading : Reading) (chunks : List Chunk) : Option Reading :=
  reading.readAll? (chunks.map (Located.mk 0))

theorem readChunks_append (reading : Reading) (first second : List Chunk) :
    reading.readChunks? (first ++ second) =
      (reading.readChunks? first).bind fun next => next.readChunks? second := by
  rw [readChunks?, List.map_append, readAll_append]
  rfl

theorem readAll_cons (reading : Reading) (first : Located) (rest : List Located) :
    reading.readAll? (first :: rest) =
      (reading.readChunk? first).bind fun next => next.readAll? rest := by
  rw [readAll?]
  cases reading.readChunk? first <;> rfl

theorem readChunks_cons (reading : Reading) (chunk : Chunk) (rest : List Chunk) :
    reading.readChunks? (chunk :: rest) =
      (reading.readChunk? ⟨0, chunk⟩).bind fun next => next.readChunks? rest :=
  readAll_cons reading ⟨0, chunk⟩ _

/-- What is read of chunks does not depend on the lines they stand on, lines apart. -/
theorem unlined_readAll (reading : Reading) (located : List Located) :
    (reading.readAll? located).map unlined =
      reading.unlined.readChunks? (located.map Located.chunk) := by
  induction located generalizing reading with
  | nil => rfl
  | cons first rest ih =>
    rw [List.map_cons, readChunks_cons, ← unlined_readChunk, readAll_cons]
    cases reading.readChunk? first with
    | none => rfl
    | some next => exact ih next

end Reading

/-! ## Documents without lines -/

/-- The chunks of a text. -/
def chunksOf? (text : List Char) : Option (List Chunk) :=
  (chunks? 0 text).map (·.map Located.chunk)

/-- A text is cut into the same chunks on every line. -/
theorem chunks_unlined (line : Nat) (text : List Char) :
    (chunks? line text).map (·.map Located.chunk) = chunksOf? text := by
  rw [chunksOf?]
  generalize 0 = other
  induction line, text using chunks?.induct generalizing other with
  | case1 line => rw [chunks?, chunks?]
  | case2 line c rest uncut =>
    rw [chunks?, chunks?]
    split
    · rfl
    · rename_i cut
      rw [uncut] at cut
      cases cut
  | case3 line c rest chunk following cut shorter ih =>
    have later := congrArg (Option.map (chunk :: ·)) (ih (other + chunk.body.count '\n'))
    rw [Option.map_map, Option.map_map] at later
    rw [chunks_cons cut (by simp), chunks_cons cut (by simp), Option.map_map, Option.map_map]
    exact later

theorem chunksOf_nil : chunksOf? [] = some [] := by
  rw [chunksOf?, chunks?]
  rfl

theorem chunksOf_cons {text following : List Char} {chunk : Chunk}
    (first : chunk? text = some (chunk, following)) (filled : text ≠ []) :
    chunksOf? text = (chunksOf? following).map (chunk :: ·) := by
  rw [chunksOf?, chunks_cons first filled, ← chunks_unlined (0 + chunk.body.count '\n') following,
    Option.map_map, Option.map_map]
  rfl

/-- What is read of a text, lines apart, comes from the chunks of its content. -/
theorem reading_unlined (text : List Char) :
    (reading? text).map Reading.unlined =
      (content? text).bind fun content => (chunksOf? content).bind ({} : Reading).readChunks? := by
  simp only [reading?, content?, Option.bind_eq_bind, Option.map_bind]
  refine Option.bind_congr fun content _ => ?_
  rw [Function.comp_apply, Option.map_bind]
  generalize 1 + List.count '\n' _ = line
  rw [← chunks_unlined line content, Option.bind_map]
  refine Option.bind_congr fun located _ => ?_
  rw [Function.comp_apply, Reading.unlined_readAll]
  rfl

end Framecode.Xml
