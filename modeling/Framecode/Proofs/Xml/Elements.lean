import Framecode.Proofs.Xml.Tags

/-! Elements from the chunks they are written as. What a row of chunks adds to an element
does not depend on where it stands, lines apart, so an element is read from what its own
chunks add. Texts stay apart as long as a tag stands between them. -/
namespace Framecode.Xml

/-! ## Adding children -/

namespace Unfinished

def addAll (element : Unfinished) (nodes : List Node) : Unfinished :=
  { element with children := nodes.reverse ++ element.children }

/-- The latest child is no text, so a text that comes next is a child of its own. -/
def Ready (element : Unfinished) : Prop :=
  ∀ line content, element.children.head? ≠ some (.text line content)

private theorem addAll_addAll (element : Unfinished) (first second : List Node) :
    (element.addAll first).addAll second = element.addAll (first ++ second) := by
  simp [addAll]

private theorem addText_ready {element : Unfinished} (ready : element.Ready) (line : Nat)
    (content : String) : element.addText line content = element.addAll [.text line content] := by
  rw [addText]
  split
  · rename_i latest
    exact absurd (by rw [latest]; rfl) (ready _ _)
  · rfl

end Unfinished

/-- The last of some nodes is no text. -/
def Shut (nodes : List Node) : Prop := ∀ line content, nodes.getLast? ≠ some (.text line content)

private theorem shut_append {first second : List Node} (before : Shut first) (after : Shut second) :
    Shut (first ++ second) := by
  intro line content
  rw [List.getLast?_append]
  cases last : second.getLast? with
  | none => simpa using before line content
  | some node =>
    have other := after line content
    rw [last] at other
    simpa using other

private theorem ready_addAll {element : Unfinished} {nodes : List Node} (ready : element.Ready)
    (shut : Shut nodes) : (element.addAll nodes).Ready := by
  intro line content
  rw [Unfinished.addAll, List.head?_append, List.head?_reverse]
  cases last : nodes.getLast? with
  | none => simpa using ready line content
  | some node =>
    have other := shut line content
    rw [last] at other
    exact other

/-- The nodes of a text with some content: none if it is empty. -/
inductive Texts (content : String) : List Node → Prop where
  | empty (nothing : content = "") : Texts content []
  | single (line : Nat) : Texts content [.text line content]

/-- Chunks that add children of some form to whatever element they stand in. -/
def Adds (chunks : List Chunk) (form : List Node → Prop) : Prop :=
  ∀ (located : List Located) (element : Unfinished) (outer : List Unfinished) (root : Option Node),
    located.map Located.chunk = chunks → element.scope = [] → element.Ready →
    ∃ nodes, form nodes ∧ Shut nodes ∧
      (⟨element :: outer, root⟩ : Reading).readAll? located =
        some ⟨element.addAll nodes :: outer, root⟩

theorem Reading.readAll_append (reading : Reading) (first second : List Located) :
    reading.readAll? (first ++ second) = (reading.readAll? first).bind (·.readAll? second) := by
  induction first generalizing reading with
  | nil => rfl
  | cons located first ih =>
    rw [List.cons_append, Reading.readAll?, Reading.readAll?]
    cases reading.readChunk? located with
    | none => rfl
    | some next => exact ih next

theorem adds_nil : Adds [] (· = []) := by
  intro located element outer root chunks unscoped ready
  obtain rfl := List.map_eq_nil_iff.mp chunks
  exact ⟨[], rfl, by simp [Shut], rfl⟩

private theorem adds_append {first second : List Chunk} {form form' : List Node → Prop}
    (before : Adds first form) (following : Adds second form') :
    Adds (first ++ second)
      (fun nodes => ∃ left right, nodes = left ++ right ∧ form left ∧ form' right) := by
  intro located element outer root chunks unscoped ready
  obtain ⟨leftLocated, rightLocated, rfl, leftChunks, rightChunks⟩ := List.map_eq_append_iff.mp chunks
  obtain ⟨left, leftForm, leftShut, leftRead⟩ :=
    before leftLocated element outer root leftChunks unscoped ready
  obtain ⟨right, rightForm, rightShut, rightRead⟩ :=
    following rightLocated (element.addAll left) outer root rightChunks unscoped
      (ready_addAll ready leftShut)
  refine ⟨left ++ right, ⟨left, right, rfl, leftForm, rightForm⟩, shut_append leftShut rightShut, ?_⟩
  rw [Reading.readAll_append, leftRead, Option.bind_some, rightRead, Unfinished.addAll_addAll]

private theorem Adds.weaken {chunks : List Chunk} {form form' : List Node → Prop}
    (adds : Adds chunks form)
    (implied : ∀ nodes, form nodes → form' nodes) : Adds chunks form' := by
  intro located element outer root same unscoped ready
  obtain ⟨nodes, formed, shut, read⟩ := adds located element outer root same unscoped ready
  exact ⟨nodes, implied nodes formed, shut, read⟩

/-! ## Texts and elements -/

private theorem read_texts {located : List Located} {element : Unfinished} {outer : List Unfinished}
    {root : Option Node} {body : List Char} {content : String}
    (chunks : located.map Located.chunk = textChunk body) (held : textContent? body = some content)
    (ready : element.Ready) :
    ∃ nodes, Texts content nodes ∧ (⟨element :: outer, root⟩ : Reading).readAll? located =
      some ⟨element.addAll nodes :: outer, root⟩ := by
  cases body with
  | nil =>
    obtain rfl := List.map_eq_nil_iff.mp chunks
    have nothing : content = "" := by
      have empty : textContent? [] = some "" := by
        rw [textContent?, pieces?]
        rfl
      rw [empty] at held
      exact (Option.some.inj held).symm
    exact ⟨[], .empty nothing, rfl⟩
  | cons c rest =>
    obtain ⟨⟨line, chunk⟩, rfl, rfl⟩ := List.map_eq_singleton_iff.mp chunks
    refine ⟨[.text line content], .single line, ?_⟩
    simp [Reading.readAll?, Reading.readChunk?, held, Unfinished.addText_ready ready]

/-- An element with children of some form and a text after them. -/
def ElementNode (name : String) (attrs : List Attribute) (form : List Node → Prop)
    (content : String) (node : Node) : Prop :=
  ∃ line children texts, node = .element line ⟨"", name⟩ attrs (children ++ texts) ∧
    form children ∧ Texts content texts

/-- The chunks of an element, given those of its children and the text after them. -/
def elementChunks (name : String) (attrs : List Attribute) (inner : List Chunk)
    (last : List Char) : List Chunk :=
  .tag (opening name attrs) :: (inner ++ (textChunk last ++ [.tag (closing name)]))

/-- The marks of an element with a text before it. -/
def elementMarks (before : List Char) (name : String) (attrs : List Attribute) (inner : List Mark)
    (last : List Char) : List Mark :=
  ⟨before, opening name attrs⟩ :: (inner ++ [⟨last, closing name⟩])

theorem elementMarks_chunks (before : List Char) (name : String) (attrs : List Attribute)
    (inner : List Mark) (last : List Char) :
    (elementMarks before name attrs inner last).flatMap Mark.chunks =
      textChunk before ++ elementChunks name attrs (inner.flatMap Mark.chunks) last := by
  simp [elementMarks, elementChunks, Mark.chunks]

theorem elementMarks_clean {before last : List Char} {name : String} {attrs : List Attribute}
    {inner : List Mark} (plain : PlainElement name attrs) (unmarked : '<' ∉ before)
    (lastUnmarked : '<' ∉ last) (clean : ∀ mark ∈ inner, mark.Clean) :
    ∀ mark ∈ elementMarks before name attrs inner last, mark.Clean := by
  intro mark member
  rcases List.mem_cons.mp member with rfl | later
  · exact ⟨unmarked, tagBody_opening plain.named plain.plain⟩
  · rcases List.mem_append.mp later with inside | ending
    · exact clean mark inside
    · rw [List.mem_singleton.mp ending]
      exact ⟨lastUnmarked, tagBody_closing plain.named⟩

/-- An element is read from its chunks and goes where the reading stands. -/
theorem read_element {reading : Reading} {located : List Located} {name : String}
    {attrs : List Attribute} {inner : List Chunk} {last : List Char} {form : List Node → Prop}
    {content : String} (chunks : located.map Located.chunk = elementChunks name attrs inner last)
    (plain : PlainElement name attrs) (adds : Adds inner form)
    (held : textContent? last = some content) (unscoped : reading.scope = [])
    (room : reading.path ≠ [] ∨ reading.root = none) :
    ∃ node, ElementNode name attrs form content node ∧
      reading.readAll? located = reading.place? node := by
  obtain ⟨⟨line, _⟩, rest, rfl, rfl, restChunks⟩ := List.map_eq_cons_iff.mp chunks
  obtain ⟨innerLocated, afterLocated, rfl, innerChunks, afterChunks⟩ :=
    List.map_eq_append_iff.mp restChunks
  obtain ⟨lastLocated, endLocated, rfl, lastChunks, endChunks⟩ :=
    List.map_eq_append_iff.mp afterChunks
  obtain ⟨⟨endLine, _⟩, rfl, rfl⟩ := List.map_eq_singleton_iff.mp endChunks
  have fresh : (⟨line, ⟨"", name⟩, attrs, [], []⟩ : Unfinished).Ready := by simp [Unfinished.Ready]
  obtain ⟨children, formed, shut, innerRead⟩ :=
    adds innerLocated ⟨line, ⟨"", name⟩, attrs, [], []⟩ reading.path reading.root innerChunks rfl fresh
  obtain ⟨texts, texted, lastRead⟩ := @read_texts _ _ reading.path reading.root _ _ lastChunks held
    (ready_addAll fresh shut)
  refine ⟨.element line ⟨"", name⟩ attrs (children ++ texts),
    ⟨line, children, texts, rfl, formed, texted⟩, ?_⟩
  have whole : (((⟨line, ⟨"", name⟩, attrs, [], []⟩ : Unfinished).addAll children).addAll texts).node =
      .element line ⟨"", name⟩ attrs (children ++ texts) := by
    simp [Unfinished.addAll, Unfinished.node]
  rw [Reading.readAll?, Reading.read_opening plain unscoped room]
  simp only [Reading.readAll_append, innerRead, lastRead, Option.bind_some, Reading.readAll?]
  rw [Reading.read_closing plain.named rfl, whole]
  cases reading.place? (.element line ⟨"", name⟩ attrs (children ++ texts)) with
  | none => rfl
  | some next => rfl

/-- A node with a text before it. -/
def After (content : String) (form : Node → Prop) (nodes : List Node) : Prop :=
  ∃ texts node, nodes = texts ++ [node] ∧ Texts content texts ∧ form node

theorem adds_element {name : String} {attrs : List Attribute} {inner : List Chunk}
    {before last : List Char} {form : List Node → Prop} {blank content : String}
    (plain : PlainElement name attrs) (adds : Adds inner form)
    (blankHeld : textContent? before = some blank) (held : textContent? last = some content) :
    Adds (textChunk before ++ elementChunks name attrs inner last)
      (After blank (ElementNode name attrs form content)) := by
  intro located element outer root chunks unscoped ready
  obtain ⟨textLocated, elementLocated, rfl, textChunks, elementChunks⟩ :=
    List.map_eq_append_iff.mp chunks
  obtain ⟨texts, texted, textRead⟩ := @read_texts _ _ outer root _ _ textChunks blankHeld ready
  obtain ⟨node, formed, nodeRead⟩ :=
    @read_element ⟨element.addAll texts :: outer, root⟩ _ _ _ _ _ _ _ elementChunks plain adds held
      unscoped (.inl (List.cons_ne_nil _ _))
  refine ⟨texts ++ [node], ⟨texts, node, rfl, texted, formed⟩, ?_, ?_⟩
  · obtain ⟨line, children, after, rfl, _⟩ := formed
    simp [Shut]
  · rw [Reading.readAll_append, textRead, Option.bind_some, nodeRead, ← Unfinished.addAll_addAll]
    rfl

/-! ## Rows of elements -/

/-- Nodes of a given form for each of some items, with blanks before each of them. -/
inductive Row {α : Type} (blank : String) (form : α → Node → Prop) : List α → List Node → Prop where
  | nil : Row blank form [] []
  | cons {item : α} {items : List α} {texts nodes : List Node} {node : Node}
      (before : Texts blank texts) (formed : form item node) (rest : Row blank form items nodes) :
      Row blank form (item :: items) (texts ++ node :: nodes)

theorem adds_row {α : Type} {blank : String} {form : α → Node → Prop} {chunks : α → List Chunk}
    {items : List α} (each : ∀ item ∈ items, Adds (chunks item) (After blank (form item))) :
    Adds (items.flatMap chunks) (Row blank form items) := by
  induction items with
  | nil =>
    refine adds_nil.weaken ?_
    rintro nodes rfl
    exact .nil
  | cons item items ih =>
    have rest := ih fun other member => each other (List.mem_cons_of_mem _ member)
    refine (adds_append (each item List.mem_cons_self) rest).weaken ?_
    rintro nodes ⟨_, right, rfl, ⟨texts, node, rfl, before, formed⟩, row⟩
    rw [List.append_assoc, List.singleton_append]
    exact .cons before formed row

/-! ## Documents -/

private theorem isAllowed_of_isSpace {c : Char} (space : isSpace c = true) :
    isAllowed c = true := by
  simp only [isSpace, Bool.or_eq_true, beq_iff_eq] at space
  rcases space with ((rfl | rfl) | rfl) | rfl
  all_goals decide

/-- A text with a forbidden character cannot be read, wherever it stands. -/
theorem read_forbidden {reading : Reading} {located : List Located} {body : List Char} {c : Char}
    (held : .text body ∈ located.map Located.chunk) (member : c ∈ body)
    (forbidden : isAllowed c = false) : reading.readAll? located = none := by
  have refused : ∀ (reading : Reading) (line : Nat), reading.readChunk? ⟨line, .text body⟩ = none := by
    intro reading line
    have notSpace : body.all isSpace = false := by
      rw [List.all_eq_false]
      refine ⟨c, member, fun space => ?_⟩
      rw [isAllowed_of_isSpace space] at forbidden
      cases forbidden
    have notAllowed : body.all isAllowed = false := by
      rw [List.all_eq_false]
      exact ⟨c, member, by simp [forbidden]⟩
    obtain ⟨path, root⟩ := reading
    cases path with
    | nil => simp only [Reading.readChunk?, notSpace, Bool.false_eq_true, if_false]
    | cons element outer =>
      simp only [Reading.readChunk?, textContent?, notAllowed, Bool.false_and, Bool.false_eq_true,
        if_false, Option.map_none]
  induction located generalizing reading with
  | nil => cases held
  | cons first rest ih =>
    obtain ⟨line, chunk⟩ := first
    rw [Reading.readAll?]
    rcases List.mem_cons.mp held with rfl | later
    · rw [refused]
    · cases reading.readChunk? ⟨line, chunk⟩ with
      | none => rfl
      | some next => exact ih later

/-- The declaration that documents are written with. -/
def declaration : List Char := "<?xml version=\"1.0\" encoding=\"UTF-8\"?>".toList

private theorem skip_declaration (content : List Char) :
    skipDeclaration? (declaration ++ content) = some content := by
  rfl

/-- What follows the declaration of a document is read from its chunks. -/
theorem document_declared {text : String} {content : List Char} {chunks : List Chunk}
    (spelled : text.toList = declaration ++ content) (cut : CutInto content chunks) :
    ∃ located, located.map Located.chunk = chunks ∧
      document? text = (({} : Reading).readAll? located).bind fun reading =>
        if reading.path.isEmpty then reading.root else none := by
  have unmarked : (Text.after? ['\uFEFF'] text.toList).getD text.toList = text.toList := by
    rw [spelled]
    rfl
  obtain ⟨located, found, same⟩ := cut (1 + (text.toList.take
    (text.toList.length - content.length)).count '\n')
  refine ⟨located, same, ?_⟩
  have skipped : skipDeclaration? text.toList = some content := by
    rw [spelled, skip_declaration]
  simp only [document?, unmarked, skipped, found, Option.bind_eq_bind, Option.bind_some]

/-- A document with one element and white space around it is read as that element. -/
theorem read_root {located : List Located} {name : String} {attrs : List Attribute}
    {inner : List Chunk} {lead last trail : List Char} {form : List Node → Prop} {content : String}
    (chunks : located.map Located.chunk =
      textChunk lead ++ (elementChunks name attrs inner last ++ textChunk trail))
    (plain : PlainElement name attrs) (adds : Adds inner form)
    (held : textContent? last = some content) (leading : lead.all isSpace = true)
    (trailing : trail.all isSpace = true) :
    ∃ node, ElementNode name attrs form content node ∧
      ({} : Reading).readAll? located = some ⟨[], some node⟩ := by
  have spaces : ∀ (body : List Char) (located : List Located) (root : Option Node),
      body.all isSpace = true → located.map Located.chunk = textChunk body →
      (⟨[], root⟩ : Reading).readAll? located = some ⟨[], root⟩ := by
    intro body located root blank same
    cases body with
    | nil =>
      obtain rfl := List.map_eq_nil_iff.mp same
      rfl
    | cons c rest =>
      obtain ⟨⟨line, _⟩, rfl, rfl⟩ := List.map_eq_singleton_iff.mp same
      simp only [Reading.readAll?, Reading.readChunk?, blank, if_true]
  obtain ⟨leadLocated, restLocated, rfl, leadChunks, restChunks⟩ := List.map_eq_append_iff.mp chunks
  obtain ⟨elementLocated, trailLocated, rfl, elementChunks, trailChunks⟩ :=
    List.map_eq_append_iff.mp restChunks
  obtain ⟨node, formed, read⟩ :=
    @read_element {} _ _ _ _ _ _ _ elementChunks plain adds held rfl (.inr rfl)
  refine ⟨node, formed, ?_⟩
  rw [Reading.readAll_append, spaces lead _ _ leading leadChunks, Option.bind_some,
    Reading.readAll_append, read, Reading.place?, Option.bind_some]
  exact spaces trail _ _ trailing trailChunks

end Framecode.Xml
