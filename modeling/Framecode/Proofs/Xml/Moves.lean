import Framecode.Proofs.Xml.Elements

/-! What a chunk does to a document that is being read. Inside an element a chunk makes one
of five moves, and which one depends on the name and the scope of that element and on
nothing else that has been read; outside of all elements it can only start the root. What
every move keeps is kept by the whole reading: no element of a document has two attributes
of one name. -/
namespace Framecode.Xml

/-! ## Moves -/

/-- What a chunk does inside an element. -/
inductive Move where
  /-- A comment or a processing instruction, which separates texts. -/
  | gap
  /-- A text or a character data section. -/
  | text (line : Nat) (content : String)
  /-- The start of an element. -/
  | opening (element : Unfinished)
  /-- A whole element, which has no content. -/
  | whole (element : Unfinished)
  /-- The end of the element. -/
  | closing

/-- The move of a chunk inside an element with a given scope and name. -/
def moveOf? (scope : Scope) (name : Name) (located : Located) : Option Move :=
  match located.chunk with
  | .comment body => if isComment body then some .gap else none
  | .processing body => if isProcessing body then some .gap else none
  | .text body => (textContent? body).map (.text located.line)
  | .cdata body => (sectionContent? body).map (.text located.line)
  | .tag body =>
    match tag? body with
    | none => none
    | some (.finish closed) => if name = closed then some .closing else none
    | some (.start inner raw closed) => do
      let attributes ← raw.mapM fun attr =>
        (attributeContent? attr.body).map (Attribute.mk attr.name ·)
      let (plain, scope) ← qualify? scope inner attributes
      let element : Unfinished := ⟨located.line, inner, plain, scope, []⟩
      return if closed then .whole element else .opening element

/-- What a move in an element leads to, given what there is around the element. -/
def Move.make (element : Unfinished) (outer : List Unfinished) (root : Option Node) :
    Move → Option Reading
  | .gap => some ⟨element.add .gap :: outer, root⟩
  | .text line content => some ⟨element.addText line content :: outer, root⟩
  | .opening inner => some ⟨inner :: element :: outer, root⟩
  | .whole inner => some ⟨element.add inner.node :: outer, root⟩
  | .closing => (⟨outer, root⟩ : Reading).place? element.node

/-- A chunk inside an element makes its move. -/
theorem readChunk_inside (element : Unfinished) (outer : List Unfinished) (root : Option Node)
    (located : Located) :
    (⟨element :: outer, root⟩ : Reading).readChunk? located =
      (moveOf? element.scope element.name located).bind (Move.make element outer root) := by
  obtain ⟨line, chunk⟩ := located
  cases chunk with
  | comment body | processing body =>
    simp only [Reading.readChunk?, moveOf?]
    split <;> rfl
  | text body =>
    simp only [Reading.readChunk?, moveOf?]
    cases textContent? body <;> rfl
  | cdata body =>
    simp only [Reading.readChunk?, moveOf?]
    cases sectionContent? body <;> rfl
  | tag body =>
    simp only [Reading.readChunk?, moveOf?]
    cases tag? body with
    | none => rfl
    | some tag =>
      cases tag with
      | finish closed =>
        simp only [Option.bind_some, Reading.readTag?]
        split <;> rfl
      | start inner raw closed =>
        simp only [Option.bind_some, Reading.readTag?, Reading.scope, List.head?_cons,
          Option.map_some, Option.getD_some, Option.bind_eq_bind, List.isEmpty_cons,
          Bool.false_and, Bool.false_eq_true, if_false, Option.bind_assoc]
        refine Option.bind_congr fun attributes _ => Option.bind_congr fun found _ => ?_
        cases closed <;> rfl

/-- Before the root a chunk either counts for nothing or starts the root. -/
theorem readChunk_before {located : Located} {next : Reading}
    (read : ({} : Reading).readChunk? located = some next) :
    next = {} ∨ ∃ element,
      (moveOf? [] element.name located = some (.opening element) ∧ next = ⟨[element], none⟩) ∨
      (moveOf? [] element.name located = some (.whole element) ∧
        next = ⟨[], some element.node⟩) := by
  obtain ⟨line, chunk⟩ := located
  cases chunk with
  | comment body | processing body | text body =>
    simp only [Reading.readChunk?, Reading.readGap, Option.ite_none_right_eq_some] at read
    exact .inl (Option.some.inj read.2).symm
  | cdata body => cases read
  | tag body =>
    simp only [Reading.readChunk?] at read
    cases tagged : tag? body with
    | none =>
      rw [tagged] at read
      cases read
    | some tag =>
      rw [tagged, Option.bind_some] at read
      cases tag with
      | finish name => cases read
      | start name raw closed =>
        simp only [Reading.readTag?, Option.bind_eq_bind, Option.bind_eq_some_iff] at read
        obtain ⟨attributes, held, ⟨plain, scope⟩, qualified, started⟩ := read
        have outermost : Reading.scope {} = [] := rfl
        rw [outermost] at qualified
        refine .inr ⟨⟨line, name, plain, scope, []⟩, ?_⟩
        simp only [moveOf?, tagged, held, qualified, Option.bind_eq_bind, Option.bind_some]
        cases closed with
        | true => exact .inr ⟨rfl, (Option.some.inj started).symm⟩
        | false => exact .inl ⟨rfl, (Option.some.inj started).symm⟩

/-- Whether a chunk may stand after the root. -/
def mayFollow : Chunk → Bool
  | .comment body => isComment body
  | .processing body => isProcessing body
  | .text body => body.all isSpace
  | .cdata _ | .tag _ => false

/-- After the root there is nothing that counts. -/
theorem readChunk_after (node : Node) (located : Located) :
    (⟨[], some node⟩ : Reading).readChunk? located =
      if mayFollow located.chunk then some ⟨[], some node⟩ else none := by
  obtain ⟨line, chunk⟩ := located
  cases chunk with
  | comment body | processing body | text body | cdata body => rfl
  | tag body =>
    simp only [Reading.readChunk?, mayFollow, Bool.false_eq_true, if_false]
    cases tag? body with
    | none => rfl
    | some tag =>
      cases tag with
      | finish name => rfl
      | start name raw closed =>
        simp only [Option.bind_some, Reading.readTag?, Option.bind_eq_bind]
        refine Option.bind_eq_none_iff.mpr fun attributes _ =>
          Option.bind_eq_none_iff.mpr fun found _ => ?_
        cases closed <;> rfl

/-- What follows the root does not change it. -/
theorem readAll_after {node : Node} {located : List Located} {reading : Reading}
    (read : (⟨[], some node⟩ : Reading).readAll? located = some reading) :
    reading = ⟨[], some node⟩ ∧
      ∀ other, (⟨[], some other⟩ : Reading).readAll? located = some ⟨[], some other⟩ := by
  induction located with
  | nil =>
    cases read
    exact ⟨rfl, fun _ => rfl⟩
  | cons first rest ih =>
    rw [Reading.readAll?, readChunk_after] at read
    by_cases follows : mayFollow first.chunk = true
    · simp only [if_pos follows] at read
      obtain ⟨same, others⟩ := ih read
      refine ⟨same, fun other => ?_⟩
      rw [Reading.readAll?, readChunk_after, if_pos follows]
      exact others other
    · simp only [if_neg follows, reduceCtorEq] at read

/-! ## Attributes -/

/-- Attributes of which no two have one name. -/
def DistinctNames (attributes : List Attribute) : Prop := (attributes.map Attribute.name).Nodup

/-- A node whose elements, itself and those inside it, have distinct attributes. -/
inductive Node.Sound : Node → Prop where
  | element {line : Nat} {name : Name} {attributes : List Attribute} {children : List Node}
      (distinct : DistinctNames attributes) (inside : ∀ child ∈ children, child.Sound) :
      Sound (.element line name attributes children)
  | text {line : Nat} {content : String} : Sound (.text line content)
  | gap : Sound .gap

/-- An unfinished element that is sound as far as it has been read. -/
structure Unfinished.Sound (element : Unfinished) : Prop where
  distinct : DistinctNames element.attributes
  inside : ∀ child ∈ element.children, child.Sound

namespace Unfinished

private theorem Sound.node {element : Unfinished} (sound : element.Sound) : element.node.Sound :=
  .element sound.distinct fun child member => sound.inside child (List.mem_reverse.mp member)

private theorem Sound.add {element : Unfinished} {child : Node} (sound : element.Sound)
    (added : child.Sound) : (element.add child).Sound :=
  ⟨sound.distinct, List.forall_mem_cons.mpr ⟨added, sound.inside⟩⟩

private theorem Sound.addText {element : Unfinished} (sound : element.Sound) (line : Nat)
    (content : String) : (element.addText line content).Sound := by
  rw [Unfinished.addText]
  split
  · rename_i latest
    have inside := sound.inside
    rw [latest] at inside
    exact ⟨sound.distinct, List.forall_mem_cons.mpr ⟨.text, (List.forall_mem_cons.mp inside).2⟩⟩
  · exact sound.add .text

end Unfinished

/-- Attributes with distinct keys have distinct names, since a name has one key only. -/
theorem distinct_of_keys {scope : Scope} {seen : List (Option String × String)}
    {attributes : List Attribute} (distinct : distinctIn scope seen attributes = true) :
    DistinctNames attributes ∧ ∀ attr ∈ attributes, ∀ space,
      spaceOf? scope attr.name = some space → (space, attr.name.base) ∉ seen := by
  induction attributes generalizing seen with
  | nil => exact ⟨List.nodup_nil, by simp⟩
  | cons attr rest ih =>
    rw [distinctIn] at distinct
    cases known : spaceOf? scope attr.name with
    | none => simp [known] at distinct
    | some space =>
      simp only [known, Bool.and_eq_true, Bool.not_eq_true', List.contains_eq_mem,
        decide_eq_false_iff_not] at distinct
      obtain ⟨restDistinct, unseen⟩ := ih distinct.2
      have fresh : attr.name ∉ rest.map Attribute.name := by
        intro again
        obtain ⟨other, member, same⟩ := List.mem_map.mp again
        refine unseen other member space (by rw [same, known]) ?_
        rw [same]
        exact List.mem_cons_self
      refine ⟨List.nodup_cons.mpr ⟨fresh, restDistinct⟩, ?_⟩
      intro other member space' known' held
      rcases List.mem_cons.mp member with rfl | later
      · rw [known] at known'
        cases known'
        exact distinct.1 held
      · exact unseen other later space' known' (List.mem_cons_of_mem _ held)

private theorem distinct_of_qualify {outer scope : Scope} {name : Name}
    {attributes plain : List Attribute}
    (qualified : qualify? outer name attributes = some (plain, scope)) : DistinctNames plain := by
  simp only [qualify?, Option.bind_eq_bind, Option.bind_eq_some_iff] at qualified
  obtain ⟨declared, _, accepted⟩ := qualified
  split at accepted
  · rename_i checked
    cases accepted
    exact (distinct_of_keys (Bool.and_eq_true .. ▸ checked).2).1
  · cases accepted

/-- An element that a tag starts is sound. -/
theorem sound_of_move {scope : Scope} {name : Name} {located : Located} {element : Unfinished}
    (moved : moveOf? scope name located = some (.opening element) ∨
      moveOf? scope name located = some (.whole element)) : element.Sound := by
  obtain ⟨line, chunk⟩ := located
  cases chunk with
  | comment body | processing body | text body | cdata body => simp [moveOf?] at moved
  | tag body =>
    simp only [moveOf?] at moved
    cases tagged : tag? body with
    | none => simp [tagged] at moved
    | some tag =>
      rw [tagged] at moved
      cases tag with
      | finish name => simp at moved
      | start inner raw closed =>
        simp only [Option.bind_eq_bind, Option.bind_eq_some_iff, Option.pure_def,
          Option.some.injEq] at moved
        cases closed with
        | true =>
          simp only [if_true, reduceCtorEq, and_false, exists_false, false_or] at moved
          obtain ⟨attributes, _, ⟨plain, inside⟩, qualified, same⟩ := moved
          cases same
          exact ⟨distinct_of_qualify qualified, by simp⟩
        | false =>
          simp only [Bool.false_eq_true, if_false, reduceCtorEq, and_false, exists_false,
            or_false] at moved
          obtain ⟨attributes, _, ⟨plain, inside⟩, qualified, same⟩ := moved
          cases same
          exact ⟨distinct_of_qualify qualified, by simp⟩

/-- A reading whose elements are sound. Its root is an element. -/
structure Reading.Sound (reading : Reading) : Prop where
  path : ∀ element ∈ reading.path, element.Sound
  root : ∀ node, reading.root = some node → ∃ element : Unfinished, element.Sound ∧
    element.node = node

private theorem sound_of_make {element : Unfinished} {outer : List Unfinished} {root : Option Node}
    {located : Located} {move : Move} {next : Reading}
    (moved : moveOf? element.scope element.name located = some move)
    (sound : (⟨element :: outer, root⟩ : Reading).Sound)
    (made : move.make element outer root = some next) : next.Sound := by
  obtain ⟨path, rooted⟩ := sound
  obtain ⟨first, others⟩ := List.forall_mem_cons.mp path
  cases move with
  | gap =>
    cases made
    exact ⟨List.forall_mem_cons.mpr ⟨first.add .gap, others⟩, rooted⟩
  | text line content =>
    cases made
    exact ⟨List.forall_mem_cons.mpr ⟨first.addText line content, others⟩, rooted⟩
  | opening inner =>
    cases made
    exact ⟨List.forall_mem_cons.mpr ⟨sound_of_move (.inl moved), path⟩, rooted⟩
  | whole inner =>
    cases made
    exact ⟨List.forall_mem_cons.mpr ⟨first.add (sound_of_move (.inr moved)).node, others⟩, rooted⟩
  | closing =>
    cases outer with
    | nil =>
      cases root with
      | none =>
        cases made
        exact ⟨by simp, fun node same => ⟨element, first, Option.some.inj same⟩⟩
      | some node => cases made
    | cons parent outer =>
      cases made
      obtain ⟨above, rest⟩ := List.forall_mem_cons.mp others
      exact ⟨List.forall_mem_cons.mpr ⟨above.add first.node, rest⟩, rooted⟩

private theorem sound_of_readChunk {reading next : Reading} {located : Located}
    (sound : reading.Sound)
    (read : reading.readChunk? located = some next) : next.Sound := by
  obtain ⟨path, root⟩ := reading
  cases path with
  | cons element outer =>
    rw [readChunk_inside, Option.bind_eq_some_iff] at read
    obtain ⟨move, moved, made⟩ := read
    exact sound_of_make moved sound made
  | nil =>
    cases root with
    | some node =>
      rw [readChunk_after, Option.ite_none_right_eq_some] at read
      cases read.2
      exact sound
    | none =>
      rcases readChunk_before read with rfl | ⟨element, ⟨moved, rfl⟩ | ⟨moved, rfl⟩⟩
      · exact sound
      · exact ⟨by simpa using sound_of_move (.inl moved), by simp⟩
      · exact ⟨by simp, fun node same => ⟨element, sound_of_move (.inr moved),
          Option.some.inj same⟩⟩

private theorem sound_of_readAll {reading next : Reading} {located : List Located}
    (sound : reading.Sound)
    (read : reading.readAll? located = some next) : next.Sound := by
  induction located generalizing reading with
  | nil =>
    cases read
    exact sound
  | cons first rest ih =>
    rw [Reading.readAll?] at read
    cases step : reading.readChunk? first with
    | none =>
      rw [step] at read
      cases read
    | some middle =>
      rw [step] at read
      exact ih (sound_of_readChunk sound step) read

/-! ## Documents -/

/-- What is read of a text, whether or not it ends where a document may end. -/
def reading? (text : List Char) : Option Reading := do
  let marked := (Text.after? ['\uFEFF'] text).getD text
  let content ← skipDeclaration? marked
  let declared := marked.take (marked.length - content.length)
  let located ← chunks? (1 + declared.count '\n') content
  ({} : Reading).readAll? located

/-- A document is a text that is read to the end of its root. -/
theorem document_eq_reading (text : String) :
    document? text = (reading? text.toList).bind fun reading =>
      if reading.path.isEmpty then reading.root else none := by
  simp only [document?, reading?, Option.bind_eq_bind, Option.bind_assoc]

/-- What is read before a root exists starts with white space and a bracket. -/
theorem chunks_start {line : Nat} {text : List Char} {located : List Located} {reading : Reading}
    {node : Node} (cut : chunks? line text = some located)
    (read : ({} : Reading).readAll? located = some reading) (rooted : reading.root = some node) :
    ∃ lead tail, text = lead ++ '<' :: tail ∧ ∀ c ∈ lead, isSpace c = true := by
  cases text with
  | nil =>
    rw [chunks?] at cut
    cases cut
    cases read
    cases rooted
  | cons c rest =>
    by_cases opened : c = '<'
    · exact ⟨[], rest, by rw [opened]; rfl, by simp⟩
    · -- The text before the first bracket is a chunk, and outside of all elements it is blank.
      have first : chunk? (c :: rest) = some (.text ((c :: rest).takeWhile (· != '<')),
          (c :: rest).dropWhile (· != '<')) := by
        simp [chunk?, Text.after?, Ne.symm opened]
      rw [chunks_cons first (by simp), Option.map_eq_some_iff] at cut
      obtain ⟨later, cutRest, rfl⟩ := cut
      rw [Reading.readAll?] at read
      by_cases blank : ((c :: rest).takeWhile (· != '<')).all isSpace = true
      · simp only [Reading.readChunk?, if_pos blank] at read
        cases following : (c :: rest).dropWhile (· != '<') with
        | nil =>
          rw [following, chunks?] at cutRest
          cases cutRest
          cases read
          cases rooted
        | cons d tail =>
          have stopped := List.head?_dropWhile_not (· != '<') (c :: rest)
          simp only [following, List.head?_cons, bne_eq_false_iff_eq] at stopped
          subst stopped
          refine ⟨(c :: rest).takeWhile (· != '<'), tail, ?_, List.all_eq_true.mp blank⟩
          rw [← following, List.takeWhile_append_dropWhile]
      · simp only [Reading.readChunk?, if_neg blank, reduceCtorEq] at read

/-- A document starts with a bracket, perhaps after a byte order mark and white space. -/
theorem document_start {text : String} {node : Node} (read : document? text = some node) :
    ∃ lead tail, (Text.after? ['\uFEFF'] text.toList).getD text.toList = lead ++ '<' :: tail ∧
      ∀ c ∈ lead, isSpace c = true := by
  simp only [document?, Option.bind_eq_bind, Option.bind_eq_some_iff] at read
  obtain ⟨content, skipped, located, cut, reading, whole, ended⟩ := read
  have rooted : reading.root = some node := by
    split at ended
    · exact ended
    · cases ended
  rw [skipDeclaration?] at skipped
  split at skipped
  · cases skipped
    exact chunks_start cut whole rooted
  · rename_i rest declared
    rw [Text.after?_eq_some_iff] at declared
    exact ⟨[], _, declared, by simp⟩

/-- The root of a document is an element, and no element of a document has two attributes
of one name. -/
theorem document_sound {text : String} {node : Node} (read : document? text = some node) :
    ∃ element : Unfinished, element.Sound ∧ element.node = node := by
  rw [document_eq_reading, Option.bind_eq_some_iff] at read
  obtain ⟨reading, found, ended⟩ := read
  have sound : reading.Sound := by
    simp only [reading?, Option.bind_eq_bind, Option.bind_eq_some_iff] at found
    obtain ⟨_, _, _, _, whole⟩ := found
    exact sound_of_readAll ⟨by simp, by simp⟩ whole
  split at ended
  · exact sound.root node ended
  · cases ended

end Framecode.Xml
