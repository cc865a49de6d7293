import Framecode.Proofs.Xml.Asides

/-! Places in documents where an aside can be put. Behind the place the same chunks are read,
and what a chunk does depends on little of what was read before it, so the document with the
aside and the one without it grow in the same way. They differ in the element that the place
is in, and in nothing else but lines. -/
namespace Framecode.Xml

/-! ## Growing elements -/

/-- Two unfinished elements that differ in their children only. -/
structure Unfinished.Alike (left right : Unfinished) : Prop where
  name : left.name = right.name
  attributes : left.attributes = right.attributes
  scope : left.scope = right.scope

namespace Unfinished

private theorem Alike.symm {left right : Unfinished} (alike : left.Alike right) :
    right.Alike left :=
  ⟨alike.name.symm, alike.attributes.symm, alike.scope.symm⟩

theorem Alike.trans {left middle right : Unfinished} (first : left.Alike middle)
    (second : middle.Alike right) : left.Alike right :=
  ⟨first.name.trans second.name, first.attributes.trans second.attributes,
    first.scope.trans second.scope⟩

private theorem alike_add (element : Unfinished) (child : Node) :
    (element.add child).Alike element :=
  ⟨rfl, rfl, rfl⟩

private theorem alike_addText (element : Unfinished) (line : Nat) (content : String) :
    (element.addText line content).Alike element := by
  unfold addText
  split <;> exact ⟨rfl, rfl, rfl⟩

end Unfinished

/-- Two unfinished elements that have grown from two others by the same additions. -/
inductive Grown (element other : Unfinished) : Unfinished → Unfinished → Prop where
  | start : Grown element other element other
  | gap {left right : Unfinished} (grown : Grown element other left right) :
      Grown element other (left.add .gap) (right.add .gap)
  | text {left right : Unfinished} (grown : Grown element other left right) (line : Nat)
      (content : String) :
      Grown element other (left.addText line content) (right.addText line content)
  | child {left right : Unfinished} (grown : Grown element other left right)
      (inner : Unfinished) :
      Grown element other (left.add inner.node) (right.add inner.node)

open Unfinished in
theorem Grown.kept {element other left right : Unfinished} (grown : Grown element other left right) :
    left.Alike element ∧ right.Alike other := by
  induction grown with
  | start => exact ⟨⟨rfl, rfl, rfl⟩, ⟨rfl, rfl, rfl⟩⟩
  | gap _ ih => exact ⟨(alike_add _ _).trans ih.1, (alike_add _ _).trans ih.2⟩
  | text _ line content ih => exact ⟨(alike_addText _ _ _).trans ih.1, (alike_addText _ _ _).trans ih.2⟩
  | child _ inner ih => exact ⟨(alike_add _ _).trans ih.1, (alike_add _ _).trans ih.2⟩

theorem Grown.alike {element other left right : Unfinished} (grown : Grown element other left right)
    (alike : element.Alike other) : left.Alike right :=
  grown.kept.1.trans (alike.trans grown.kept.2.symm)

/-- Until an element ends, the same chunks add the same to it and to another one like it. -/
theorem readAll_grown {element other left right : Unfinished} {inner outer : List Unfinished}
    {root : Option Node} {located : List Located} {node : Node} (alike : element.Alike other)
    (grown : Grown element other left right)
    (read : (⟨inner ++ left :: outer, root⟩ : Reading).readAll? located = some ⟨[], some node⟩) :
    ∃ first second later, Grown element other first second ∧
      ((⟨outer, root⟩ : Reading).place? first.node).bind (·.readAll? later) =
        some ⟨[], some node⟩ ∧
      (⟨inner ++ right :: outer, root⟩ : Reading).readAll? located =
        ((⟨outer, root⟩ : Reading).place? second.node).bind (·.readAll? later) := by
  induction located generalizing inner left right with
  | nil =>
    rw [Reading.readAll?] at read
    have closed := congrArg Reading.path (Option.some.inj read)
    simp at closed
  | cons located rest ih =>
    cases inner with
    | nil =>
      have same := grown.alike alike
      rw [List.nil_append, Reading.readAll_cons, readChunk_inside] at read
      rw [List.nil_append, Reading.readAll_cons, readChunk_inside, ← same.name, ← same.scope]
      cases moved : moveOf? left.scope left.name located with
      | none =>
        rw [moved] at read
        cases read
      | some move =>
        rw [moved, Option.bind_some] at read
        rw [Option.bind_some]
        cases move with
        | gap => exact @ih _ _ [] grown.gap read
        | text line content => exact @ih _ _ [] (grown.text line content) read
        | opening started => exact @ih _ _ [started] grown read
        | whole started => exact @ih _ _ [] (grown.child started) read
        | closing => exact ⟨left, right, rest, grown, read, rfl⟩
    | cons top inner =>
      rw [List.cons_append, Reading.readAll_cons, readChunk_inside] at read
      rw [List.cons_append, Reading.readAll_cons, readChunk_inside]
      cases moved : moveOf? top.scope top.name located with
      | none =>
        rw [moved] at read
        cases read
      | some move =>
        rw [moved, Option.bind_some] at read
        rw [Option.bind_some]
        cases move with
        | gap => exact @ih _ _ (top.add .gap :: inner) grown read
        | text line content => exact @ih _ _ (top.addText line content :: inner) grown read
        | opening started => exact @ih _ _ (started :: top :: inner) grown read
        | whole started => exact @ih _ _ (top.add started.node :: inner) grown read
        | closing =>
          cases inner with
          | nil => exact @ih _ _ [] (grown.child top) read
          | cons next inner => exact @ih _ _ (next.add top.node :: inner) grown read

/-- Two elements with a difference that comes from the inside: `first` and `second` have
ended, and each of `outer`, the nearest first, has grown by the same additions since then. -/
def Enclosed (first second : Unfinished) : List Unfinished → Unfinished → Unfinished → Prop
  | [], left, right => left = first ∧ right = second
  | parent :: outer, left, right => ∃ inner other,
      Grown (parent.add first.node) (parent.add second.node) inner other ∧
      Enclosed inner other outer left right

/-- After an element has ended, the same chunks lead to two documents that differ in that
element alone. -/
theorem readAll_enclosed {first second : Unfinished} {outer : List Unfinished}
    {root : Option Node} {located : List Located} {node : Node}
    (read : ((⟨outer, root⟩ : Reading).place? first.node).bind (·.readAll? located) =
      some ⟨[], some node⟩) :
    ∃ left right, Enclosed first second outer left right ∧ left.node = node ∧
      ((⟨outer, root⟩ : Reading).place? second.node).bind (·.readAll? located) =
        some ⟨[], some right.node⟩ := by
  induction outer generalizing first second located with
  | nil =>
    cases root with
    | some other => cases read
    | none =>
      obtain ⟨same, others⟩ := readAll_after read
      cases same
      exact ⟨first, second, ⟨rfl, rfl⟩, rfl, others second.node⟩
  | cons parent outer ih =>
    have alike : (parent.add first.node).Alike (parent.add second.node) := ⟨rfl, rfl, rfl⟩
    obtain ⟨inner, other, later, grown, rest, same⟩ :=
      @readAll_grown _ _ _ _ [] outer root located node alike .start read
    obtain ⟨left, right, enclosed, whole, ended⟩ := @ih inner other later rest
    refine ⟨left, right, ⟨inner, other, grown, enclosed⟩, whole, ?_⟩
    rw [← ended]
    exact same

/-! ## Places -/

/-- A place in the content of an element: what stands before it can be read, and leaves that
element open. -/
structure Place (text : List Char) where
  before : List Char
  after : List Char
  whole : text = before ++ after
  element : Unfinished
  outer : List Unfinished
  opened : (reading? before).map Reading.path = some (element :: outer)

namespace Place

variable {text : List Char}

/-- The text with an aside put in at a place. -/
def insert (place : Place text) (aside : Chunk) : List Char :=
  place.before ++ (aside.render ++ place.after)

/-- The element ends at the place. -/
def AtEnd (place : Place text) : Prop := ∃ tail, place.after = '<' :: '/' :: tail

end Place

private theorem chunksOf_first {text : List Char} {chunks : List Chunk}
    (cut : chunksOf? text = some chunks) (filled : text ≠ []) :
    ∃ chunk following, chunk? text = some (chunk, following) := by
  obtain ⟨c, rest, rfl⟩ := List.exists_cons_of_ne_nil filled
  rw [chunksOf?, chunks?] at cut
  split at cut
  · cases cut
  · rename_i chunk following found
    exact ⟨chunk, following, found⟩

/-- What is cut off at the end of an element is its closing tag. -/
theorem chunk_closing {tail following : List Char} {chunk : Chunk}
    (cut : chunk? ('<' :: '/' :: tail) = some (chunk, following)) :
    ∃ body, chunk = .tag ('/' :: body) := by
  have tagged : chunk? ('<' :: '/' :: tail) =
      (cutTag? none ('/' :: tail)).map fun parts => (.tag parts.1, parts.2) := by
    simp [chunk?, Text.after?]
  have slash : cutTag? none ('/' :: tail) =
      (cutTag? none tail).map fun parts => ('/' :: parts.1, parts.2) :=
    cutTag_cons tail (by decide) (by decide)
  rw [tagged, slash, Option.map_map, Option.map_eq_some_iff] at cut
  obtain ⟨parts, _, same⟩ := cut
  cases same
  exact ⟨parts.1, rfl⟩

private theorem move_closing {scope : Scope} {name : Name} {line : Nat} {body : List Char}
    {move : Move}
    (moved : moveOf? scope name ⟨line, .tag ('/' :: body)⟩ = some move) : move = .closing := by
  simp only [moveOf?, tag?, Text.after?, ↓reduceIte] at moved
  cases named : name? body with
  | none => simp [named] at moved
  | some found =>
    simp only [named, Option.bind_eq_bind, Option.bind_some] at moved
    by_cases empty : (skipSpace found.2).isEmpty = true
    · simp only [if_pos empty, Option.ite_none_right_eq_some, Option.some.injEq] at moved
      exact moved.2.symm
    · simp only [if_neg empty, reduceCtorEq] at moved

/-- How an element differs once an aside is put into it: the aside stands right behind what
was read before, or it cuts a text in two. -/
inductive Parted : Unfinished → Unfinished → Unfinished → Prop where
  | beside (element : Unfinished) : Parted element element (element.add .gap)
  | within (element : Unfinished) {first second whole : String} (joins : Joins first second whole) :
      Parted (element.addText 0 first) (element.addText 0 whole)
        (((element.addText 0 first).add .gap).addText 0 second)

open Unfinished in
theorem Parted.kept {element left right : Unfinished} (parted : Parted element left right) :
    left.Alike element ∧ right.Alike element := by
  cases parted with
  | beside => exact ⟨⟨rfl, rfl, rfl⟩, alike_add _ _⟩
  | within element joins =>
    exact ⟨(alike_addText _ _ _).trans (alike_addText _ _ _).symm,
      (alike_addText _ _ _).trans (alike_add _ _)⟩

theorem Parted.alike {element left right : Unfinished} (parted : Parted element left right) :
    left.Alike right :=
  parted.kept.1.trans parted.kept.2.symm

/-- The chunks around a place, with an aside there and without one. A text that reaches from
`last` before the place to `more` behind it is one chunk, and the aside makes it two. -/
theorem place_chunks {text : List Char} (place : Place text) {aside : Chunk}
    (proper : IsAside aside) :
    ∃ earlier last more following root,
      ({} : Reading).readChunks? (earlier ++ textChunk last) =
        some ⟨place.element.unlined :: place.outer.map Unfinished.unlined, root⟩ ∧
      place.after = more ++ following ∧ '<' ∉ more ∧
      (reading? text).map Reading.unlined = ((chunksOf? following).bind fun later =>
        ({} : Reading).readChunks? (earlier ++ textChunk (last ++ more) ++ later)) ∧
      (reading? (place.insert aside)).map Reading.unlined = ((chunksOf? following).bind fun later =>
        ({} : Reading).readChunks? (earlier ++ textChunk last ++ aside :: (textChunk more ++ later))) := by
  obtain ⟨before, after, rfl, element, outer, opened⟩ := place
  obtain ⟨⟨path, root⟩, found, rfl⟩ := Option.map_eq_some_iff.mp opened
  have lead := reading_unlined before
  rw [found, Option.map_some, eq_comm, Option.bind_eq_some_iff] at lead
  obtain ⟨content, held, lead⟩ := lead
  obtain ⟨chunks, cut, readLead⟩ := Option.bind_eq_some_iff.mp lead
  have filled : content ≠ [] := by
    rintro rfl
    rw [chunksOf_nil] at cut
    cases cut
    cases readLead
  obtain ⟨chunk, rest, first⟩ := chunksOf_first cut filled
  have goesOn := content_append held first filled
  obtain ⟨earlier, last, rfl, plain, extended⟩ := chunksOf_extend cut
  have unbroken : '<' ∉ after.takeWhile (· != '<') := by
    intro member
    cases List.all_eq_true.mp List.all_takeWhile _ member
  have ends := Text.run_stops (· != '<') after
  have split : after = after.takeWhile (· != '<') ++ after.dropWhile (· != '<') :=
    List.takeWhile_append_dropWhile.symm
  refine ⟨earlier, last, after.takeWhile (· != '<'), after.dropWhile (· != '<'), _, readLead,
    split, unbroken, ?_, ?_⟩
  · rw [reading_unlined, goesOn, Option.bind_some]
    conv_lhs => rw [split]
    rw [extended _ _ unbroken ends, Option.bind_map]
    rfl
  · have bracket : (aside.render ++ after).head?.any (· != '<') = false := by
      cases proper <;> rfl
    have nonempty : aside.render ++ after ≠ [] := by
      cases proper <;> simp [Chunk.render]
    have alone := extended [] (aside.render ++ after) (by simp) bracket
    rw [List.nil_append, List.append_nil, chunksOf_cons (chunk_aside proper after) nonempty] at alone
    rw [Place.insert, reading_unlined, goesOn, Option.bind_some, alone]
    conv_lhs => rw [split, chunksOf_text unbroken ends]
    rw [Option.map_map, Option.map_map, Option.bind_map]
    rfl

private theorem textChunk_append_nil {last more : List Char} (apart : last = [] ∨ more = []) :
    textChunk (last ++ more) = textChunk last ++ textChunk more := by
  rcases apart with rfl | rfl
  · rfl
  · simp [textChunk]

private theorem readText_cons (element : Unfinished) (outer : List Unfinished) (root : Option Node)
    (c : Char) (text : List Char) (later : List Chunk) :
    (⟨element :: outer, root⟩ : Reading).readChunks? (textChunk (c :: text) ++ later) =
      (textContent? (c :: text)).bind fun content =>
        (⟨element.addText 0 content :: outer, root⟩ : Reading).readChunks? later := by
  rw [textChunk, List.singleton_append, Reading.readChunks_cons]
  simp only [Reading.readChunk?]
  cases textContent? (c :: text) <;> rfl

/-- A text that leaves an element open was read inside that element. -/
theorem readText_inside {reached : Reading} {element : Unfinished} {outer : List Unfinished}
    {root : Option Node} {c : Char} {text : List Char}
    (read : reached.readChunks? (textChunk (c :: text)) = some ⟨element :: outer, root⟩) :
    ∃ inner content, textContent? (c :: text) = some content ∧
      reached = ⟨inner :: outer, root⟩ ∧ element = inner.addText 0 content := by
  obtain ⟨path, found⟩ := reached
  cases path with
  | nil =>
    rw [textChunk, Reading.readChunks_cons, Option.bind_eq_some_iff] at read
    obtain ⟨next, chunk, done⟩ := read
    cases done
    simp [Reading.readChunk?] at chunk
  | cons inner path =>
    rw [← List.append_nil (textChunk (c :: text)), readText_cons, Option.bind_eq_some_iff] at read
    obtain ⟨content, held, done⟩ := read
    cases done
    exact ⟨inner, content, held, rfl, rfl⟩

/-- What is read of the chunks around a place, with an aside there and without one: the same
chunks are left for two elements, one of which is parted. -/
theorem readChunks_parted {earlier later : List Chunk} {last more : List Char} {aside : Chunk}
    {element : Unfinished} {outer : List Unfinished} {root : Option Node} {node : Node}
    (proper : IsAside aside)
    (lead : ({} : Reading).readChunks? (earlier ++ textChunk last) = some ⟨element :: outer, root⟩)
    (all : ({} : Reading).readChunks? (earlier ++ textChunk (last ++ more) ++ later) =
      some ⟨[], some node⟩) :
    ∃ left right rest, Parted element left right ∧
      (⟨left :: outer, root⟩ : Reading).readChunks? rest = some ⟨[], some node⟩ ∧
      ({} : Reading).readChunks? (earlier ++ textChunk last ++ aside :: (textChunk more ++ later)) =
        (⟨right :: outer, root⟩ : Reading).readChunks? rest ∧
      (more = [] → left = element ∧ right = element.add .gap ∧ rest = later) := by
  have parted : ({} : Reading).readChunks?
      (earlier ++ textChunk last ++ aside :: (textChunk more ++ later)) =
        (⟨element.add .gap :: outer, root⟩ : Reading).readChunks? (textChunk more ++ later) := by
    rw [Reading.readChunks_append, lead, Option.bind_some, Reading.readChunks_cons,
      readChunk_aside proper]
    rfl
  by_cases apart : last = [] ∨ more = []
  · refine ⟨element, element.add .gap, textChunk more ++ later, .beside element, ?_, parted, ?_⟩
    · rwa [textChunk_append_nil apart, ← List.append_assoc, List.append_assoc _ _ later,
        Reading.readChunks_append, lead] at all
    · rintro rfl
      exact ⟨rfl, rfl, rfl⟩
  · -- The text before the place and the one behind it are one text.
    rw [not_or] at apart
    obtain ⟨c, last, rfl⟩ := List.exists_cons_of_ne_nil apart.1
    obtain ⟨d, more, rfl⟩ := List.exists_cons_of_ne_nil apart.2
    rw [Reading.readChunks_append, Option.bind_eq_some_iff] at lead
    obtain ⟨reached, first, lead⟩ := lead
    obtain ⟨inner, before, held, rfl, rfl⟩ := readText_inside lead
    rw [List.append_assoc, Reading.readChunks_append, first, Option.bind_some, List.cons_append,
      readText_cons, Option.bind_eq_some_iff] at all
    obtain ⟨whole, joined, all⟩ := all
    rw [← List.cons_append] at joined
    obtain ⟨rest, behind, joins⟩ := textContent_parts held joined
    refine ⟨inner.addText 0 whole, _, later, .within inner joins, all, ?_, by simp⟩
    rw [parted, readText_cons, behind]
    rfl

/-- A closing tag that is read ends the element, and any other one like it. -/
theorem readChunks_closing {element : Unfinished} {outer : List Unfinished} {root : Option Node}
    {body : List Char} {later : List Chunk} {result : Reading}
    (read : (⟨element :: outer, root⟩ : Reading).readChunks? (.tag ('/' :: body) :: later) =
      some result) {other : Unfinished} (alike : element.Alike other) :
    (⟨other :: outer, root⟩ : Reading).readChunks? (.tag ('/' :: body) :: later) =
      ((⟨outer, root⟩ : Reading).place? other.node).bind (·.readChunks? later) := by
  rw [Reading.readChunks_cons, readChunk_inside] at read
  rw [Reading.readChunks_cons, readChunk_inside, ← alike.name, ← alike.scope]
  cases moved : moveOf? element.scope element.name ⟨0, .tag ('/' :: body)⟩ with
  | none =>
    rw [moved] at read
    cases read
  | some move =>
    rw [move_closing moved]
    rfl

/-- A document with an aside put in at a place is the same document, but for the element that
the place is in, lines apart. There the aside parts what stands before it from the rest. If the
element ends at the place, there is no rest. -/
theorem insert_enclosed {text : List Char} (place : Place text) {aside : Chunk} {node : Node}
    (proper : IsAside aside)
    (read : (reading? text).map Reading.unlined = some ⟨[], some node⟩) :
    ∃ start other first second left right,
      Parted place.element.unlined start other ∧ Grown start other first second ∧
      (place.AtEnd → first = place.element.unlined) ∧
      Enclosed first second (place.outer.map Unfinished.unlined) left right ∧ left.node = node ∧
      (reading? (place.insert aside)).map Reading.unlined = some ⟨[], some right.node⟩ := by
  obtain ⟨earlier, last, more, following, root, lead, behind, plain, without, inserted⟩ :=
    place_chunks place proper
  rw [without, Option.bind_eq_some_iff] at read
  obtain ⟨later, cut, all⟩ := read
  obtain ⟨start, other, rest, parted, goesOn, same, direct⟩ := readChunks_parted proper lead all
  rw [inserted, cut, Option.bind_some, same]
  by_cases atEnd : place.AtEnd
  · obtain ⟨tail, closes⟩ := atEnd
    obtain ⟨rfl, rfl⟩ : more = [] ∧ following = '<' :: '/' :: tail := by
      rw [closes] at behind
      cases more with
      | nil => exact ⟨rfl, behind.symm⟩
      | cons c more =>
        rw [← (List.cons.inj behind).1] at plain
        exact absurd List.mem_cons_self plain
    obtain ⟨rfl, rfl, rfl⟩ := direct rfl
    obtain ⟨chunk, following, found⟩ := chunksOf_first cut (by simp)
    obtain ⟨body, rfl⟩ := chunk_closing found
    rw [chunksOf_cons found (by simp), Option.map_eq_some_iff] at cut
    obtain ⟨later, _, rfl⟩ := cut
    have alike := (Unfinished.alike_add place.element.unlined .gap).symm
    have ended := readChunks_closing goesOn ⟨rfl, rfl, rfl⟩
    rw [goesOn] at ended
    obtain ⟨left, right, enclosed, whole, done⟩ := readAll_enclosed ended.symm
    refine ⟨_, _, _, _, left, right, parted, .start, fun _ => rfl, enclosed, whole, ?_⟩
    rw [readChunks_closing goesOn alike]
    exact done
  · obtain ⟨first, second, later, grown, ended, again⟩ :=
      @readAll_grown _ _ _ _ [] _ _ _ _ parted.alike .start goesOn
    obtain ⟨left, right, enclosed, whole, done⟩ := readAll_enclosed ended
    exact ⟨start, other, first, second, left, right, parted, grown,
      fun closes => absurd closes atEnd, enclosed, whole, again.trans done⟩

end Framecode.Xml
