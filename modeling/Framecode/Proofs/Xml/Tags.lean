import Framecode.Proofs.Xml.Chunks

/-! Tags without namespaces and without references, which is all that documents of
programs are written with. Such a tag is read as its name and its attributes, and the
attributes keep their values to the letter. -/
namespace Framecode.Xml

/-! ## Names -/

/-- A name without a qualifier. -/
def PlainName (name : String) : Prop :=
  name.toList.head?.any startsName = true ∧
    ∀ c ∈ name.toList, continuesName c = true ∧ c ≠ ':'

instance (name : String) : Decidable (PlainName name) :=
  @instDecidableAnd _ _ inferInstance (List.decidableBAll _ name.toList)

private theorem PlainName.cons {name : String} (plain : PlainName name) :
    ∃ first rest, name.toList = first :: rest ∧ startsName first = true := by
  cases spelled : name.toList with
  | nil => simp [PlainName, spelled] at plain
  | cons first rest => exact ⟨first, rest, rfl, by simpa [spelled] using plain.1⟩

private theorem name_read {name : String} {following : List Char} (plain : PlainName name)
    (ends : following.head?.any continuesName = false) :
    name? (name.toList ++ following) = some (⟨"", name⟩, following) := by
  obtain ⟨taken, dropped⟩ := Text.run_ends (fun c member => (plain.2 c member).1) ends
  obtain ⟨first, rest, spelled, starts⟩ := plain.cons
  have unmarked : ':' ∉ name.toList := fun member => (plain.2 ':' member).2 rfl
  have whole : nameOf? name.toList = some ⟨"", name⟩ := by
    simp only [nameOf?, Text.cutAt_none_iff.mpr unmarked, Option.getD_none, List.contains_eq_mem,
      unmarked, decide_false, Bool.false_or, startsWell, String.ofList_toList]
    simp [spelled, starts]
  rw [name?, taken, dropped, whole]
  rfl

/-! ## Attributes -/

/-- A value of an attribute that stands for itself between double quotes. -/
def PlainValue (value : String) : Prop :=
  ∀ c ∈ value.toList, isAllowed c = true ∧ c ∉ ['<', '&', '"', '\t', '\n', '\r']

instance (value : String) : Decidable (PlainValue value) := List.decidableBAll _ value.toList

structure PlainAttribute (attr : Attribute) : Prop where
  unqualified : attr.name.qualifier = ""
  name : PlainName attr.name.base
  ordinary : attr.name.base ≠ "xmlns"
  value : PlainValue attr.value

theorem plainAttribute {name value : String} (named : PlainName name) (ordinary : name ≠ "xmlns")
    (valued : PlainValue value) : PlainAttribute ⟨⟨"", name⟩, value⟩ :=
  ⟨rfl, named, ordinary, valued⟩

/-- The text of an attribute, with the space before it. -/
def attributeText (attr : Attribute) : List Char :=
  ' ' :: (attr.name.base.toList ++ '=' :: '"' :: (attr.value.toList ++ ['"']))

/-- An attribute before its value is read. -/
def rawOf (attr : Attribute) : RawAttribute := ⟨attr.name, attr.value.toList⟩

private theorem attribute_read {attr : Attribute} (plain : PlainAttribute attr)
    (following : List Char) :
    attribute? (attr.name.base.toList ++ '=' :: '"' :: (attr.value.toList ++ '"' :: following)) =
      some (rawOf attr, following) := by
  have named := @name_read attr.name.base
    ('=' :: '"' :: (attr.value.toList ++ '"' :: following)) plain.name rfl
  have unquoted : '"' ∉ attr.value.toList := fun member => (plain.value '"' member).2 (by decide)
  have valued : Text.cutAt? '"' (attr.value.toList ++ '"' :: following) =
      some (attr.value.toList, following) := Text.cutAt_some_iff.mpr ⟨rfl, unquoted⟩
  have allowed : attr.value.toList.all (fun c => isAllowed c && c != '<') = true := by
    rw [List.all_eq_true]
    intro c member
    obtain ⟨allowed, ordinary⟩ := plain.value c member
    rw [Bool.and_eq_true, bne_iff_ne]
    exact ⟨allowed, fun same => ordinary (by simp [same])⟩
  have sameName : (⟨"", attr.name.base⟩ : Name) = attr.name := by
    rw [← plain.unqualified]
  have signed : Text.after? ['='] (skipSpace ('=' :: '"' :: (attr.value.toList ++ '"' :: following))) =
      some ('"' :: (attr.value.toList ++ '"' :: following)) := rfl
  have quoted : quoted? (skipSpace ('"' :: (attr.value.toList ++ '"' :: following))) =
      some (attr.value.toList, following) := valued
  simp only [attribute?, named, signed, quoted, Option.bind_eq_bind, Option.bind_some, allowed,
    if_true, sameName, rawOf]

/-- What starts a name is no white space and no slash. -/
theorem visible_of_startsName {c : Char} (starts : startsName c = true) :
    isSpace c = false ∧ c ≠ '/' := by
  refine ⟨?_, fun same => absurd starts (by rw [same]; decide)⟩
  cases space : isSpace c with
  | false => rfl
  | true =>
    simp only [isSpace, Bool.or_eq_true, beq_iff_eq] at space
    rcases space with ((rfl | rfl) | rfl) | rfl
    all_goals exact absurd starts (by decide)

private theorem attributes_cons {text more following : List Char} {first : Char}
    {attr : RawAttribute}
    (spaced : startsWithSpace text = true) (skipped : skipSpace text = first :: more)
    (ordinary : first ≠ '/') (read : attribute? (first :: more) = some (attr, following)) :
    attributes? text = (attributes? following).map fun others => (attr :: others.1, others.2) := by
  rw [attributes?]
  split
  · rename_i empty
    rw [skipped] at empty
    cases empty
  · rename_i slash
    rw [skipped] at slash
    exact absurd (List.cons.inj slash).1 ordinary
  · rw [if_pos spaced]
    split
    · rename_i missing
      rw [skipped, read] at missing
      cases missing
    · rename_i again
      rw [skipped, read] at again
      cases again
      rfl

private theorem attributes_read {attrs : List Attribute}
    (plain : ∀ attr ∈ attrs, PlainAttribute attr) :
    attributes? (attrs.flatMap attributeText) = some (attrs.map rawOf, false) := by
  induction attrs with
  | nil => simp [attributes?, skipSpace]
  | cons attr attrs ih =>
    have first := plain attr List.mem_cons_self
    have rest := ih fun other member => plain other (List.mem_cons_of_mem _ member)
    have read := attribute_read first (attrs.flatMap attributeText)
    obtain ⟨letter, letters, spelled, starts⟩ := first.name.cons
    obtain ⟨visible, ordinary⟩ := visible_of_startsName starts
    have text : (attr :: attrs).flatMap attributeText =
        ' ' :: letter :: (letters ++
          '=' :: '"' :: (attr.value.toList ++ '"' :: attrs.flatMap attributeText)) := by
      simp [attributeText, spelled]
    rw [spelled, List.cons_append] at read
    rw [text, attributes_cons rfl ?_ ordinary read, rest]
    · rfl
    · rw [skipSpace, List.dropWhile_cons_of_pos (by decide),
        List.dropWhile_cons_of_neg (by simp [visible])]

/-! ## Tags as they are written -/

/-- What stands between the brackets of an opening tag. -/
def opening (name : String) (attrs : List Attribute) : List Char :=
  name.toList ++ attrs.flatMap attributeText

/-- What stands between the brackets of a closing tag. -/
def closing (name : String) : List Char := '/' :: name.toList

private theorem unquoted_of_continuesName {c : Char} (continues : continuesName c = true) :
    isQuote c = false ∧ c ≠ '>' := by
  refine ⟨?_, fun same => absurd continues (by rw [same]; decide)⟩
  cases quote : isQuote c with
  | false => rfl
  | true =>
    simp only [isQuote, Bool.or_eq_true, beq_iff_eq] at quote
    rcases quote with rfl | rfl
    all_goals exact absurd continues (by decide)

private theorem cutTag_name {name : String} (plain : PlainName name) (text : List Char) :
    cutTag? none (name.toList ++ text) =
      (cutTag? none text).map fun parts => (name.toList ++ parts.1, parts.2) :=
  cutTag_unquoted text fun c member => unquoted_of_continuesName (plain.2 c member).1

private theorem cutTag_attribute {attr : Attribute} (plain : PlainAttribute attr)
    (text : List Char) :
    cutTag? none (attributeText attr ++ text) =
      (cutTag? none text).map fun parts => (attributeText attr ++ parts.1, parts.2) := by
  have unquoted : '"' ∉ attr.value.toList := fun member => (plain.value '"' member).2 (by decide)
  have shape : attributeText attr ++ text =
      ' ' :: (attr.name.base.toList ++ '=' :: '"' :: (attr.value.toList ++ '"' :: text)) := by
    simp [attributeText]
  have value : cutTag? none ('"' :: (attr.value.toList ++ '"' :: text)) =
      (cutTag? none text).map fun parts => ('"' :: (attr.value.toList ++ '"' :: parts.1), parts.2) := by
    rw [cutTag?]
    simp [isQuote, cutTag_quoted text unquoted, Function.comp_def]
  rw [shape, cutTag_cons _ rfl (by decide), cutTag_name plain.name, cutTag_cons _ rfl (by decide),
    value]
  simp [attributeText, Function.comp_def]

theorem tagBody_opening {name : String} {attrs : List Attribute} (named : PlainName name)
    (plain : ∀ attr ∈ attrs, PlainAttribute attr) : TagBody (opening name attrs) := by
  refine ⟨fun following => ?_, ?_⟩
  · have attributes : cutTag? none (attrs.flatMap attributeText ++ '>' :: following) =
        some (attrs.flatMap attributeText, following) := by
      induction attrs with
      | nil => simp [cutTag?]
      | cons attr attrs ih =>
        have first := plain attr List.mem_cons_self
        have rest := ih fun other member => plain other (List.mem_cons_of_mem _ member)
        rw [List.flatMap_cons, List.append_assoc, cutTag_attribute first, rest]
        rfl
    rw [opening, List.append_assoc, cutTag_name named, attributes]
    rfl
  · obtain ⟨first, rest, spelled, starts⟩ := named.cons
    refine ⟨first, rest ++ attrs.flatMap attributeText, by rw [opening, spelled]; rfl, ?_, ?_⟩
    · rintro rfl
      exact absurd starts (by decide)
    · rintro rfl
      exact absurd starts (by decide)

theorem tagBody_closing {name : String} (named : PlainName name) : TagBody (closing name) := by
  refine ⟨fun following => ?_, '/', name.toList, rfl, by decide, by decide⟩
  have ended : cutTag? none ('>' :: following) = some ([], following) := by simp [cutTag?]
  rw [closing, List.cons_append, cutTag_cons _ rfl (by decide), cutTag_name named, ended]
  simp

private theorem tag_opening {name : String} {attrs : List Attribute} (named : PlainName name)
    (plain : ∀ attr ∈ attrs, PlainAttribute attr) :
    tag? (opening name attrs) = some (.start ⟨"", name⟩ (attrs.map rawOf) false) := by
  obtain ⟨first, rest, spelled, starts⟩ := named.cons
  have ordinary : Text.after? ['/'] (name.toList ++ attrs.flatMap attributeText) = none := by
    rw [spelled, List.cons_append, Text.after?,
      if_neg (visible_of_startsName starts).2.symm]
  have ends : (attrs.flatMap attributeText).head?.any continuesName = false := by
    cases attrs with
    | nil => rfl
    | cons attr attrs => rfl
  simp [tag?, ordinary, opening, name_read named ends, attributes_read plain]

private theorem tag_closing {name : String} (named : PlainName name) :
    tag? (closing name) = some (.finish ⟨"", name⟩) := by
  have read := @name_read name [] named rfl
  rw [List.append_nil] at read
  have slash : Text.after? ['/'] (closing name) = some name.toList := rfl
  simp only [tag?, slash, read, Option.bind_eq_bind, Option.bind_some]
  rfl

/-! ## Values and namespaces -/

private theorem pieces_plain {text : List Char} (plain : '&' ∉ text) :
    pieces? text = some (text.map .plain) := by
  induction text with
  | nil => rw [pieces?]; rfl
  | cons c rest ih =>
    rw [List.mem_cons, not_or] at plain
    rw [pieces?, if_neg (Ne.symm plain.1), ih plain.2]
    rfl

theorem pieces_reference {text name following : List Char} {c : Char}
    (ended : Text.cutAt? ';' text = some (name, following)) (stands : reference? name = some c) :
    pieces? ('&' :: text) = (pieces? following).map (.referenced c :: ·) := by
  rw [pieces?, if_pos rfl]
  split
  · rename_i missing
    rw [ended] at missing
    cases missing
  · rename_i again
    rw [ended] at again
    cases again
    simp [stands]

private theorem attributeContent_plain {value : String} (plain : PlainValue value) :
    attributeContent? value.toList = some value := by
  have unescaped : '&' ∉ value.toList := fun member => (plain '&' member).2 (by decide)
  have spaces : ∀ text : List Char, (∀ c ∈ text, c ∉ ['\t', '\n', '\r']) →
      normalSpaces (text.map .plain) = text := by
    intro text unspaced
    induction text with
    | nil => rfl
    | cons c rest ih =>
      have first := unspaced c List.mem_cons_self
      simp only [List.mem_cons, List.not_mem_nil, or_false, not_or] at first
      have others := ih fun d member => unspaced d (List.mem_cons_of_mem _ member)
      rw [List.map_cons, normalSpaces]
      · simp [first, others]
      · intro _ _
        exact first.2.2
  rw [attributeContent?, pieces_plain unescaped, Option.map_some, spaces, String.ofList_toList]
  intro c member spaced
  refine (plain c member).2 ?_
  simp only [List.mem_cons, List.not_mem_nil, or_false] at spaced ⊢
  exact .inr (.inr (.inr spaced))

private theorem role_plain {attr : Attribute} (plain : PlainAttribute attr) :
    roleOf attr.name = .plain := by
  rw [roleOf, plain.unqualified, if_neg (by decide), if_neg plain.ordinary]

private theorem declarations_plain {attrs : List Attribute}
    (plain : ∀ attr ∈ attrs, PlainAttribute attr) :
    declarations? attrs = some [] := by
  induction attrs with
  | nil => rfl
  | cons attr attrs ih =>
    have rest := ih fun other member => plain other (List.mem_cons_of_mem _ member)
    simp [declarations?, rest, role_plain (plain attr List.mem_cons_self)]

private theorem distinct_plain {attrs : List Attribute} {seen : List (Option String × String)}
    (plain : ∀ attr ∈ attrs, PlainAttribute attr) (distinct : (attrs.map (·.name.base)).Nodup)
    (fresh : ∀ attr ∈ attrs, (none, attr.name.base) ∉ seen) : distinctIn [] seen attrs = true := by
  induction attrs generalizing seen with
  | nil => rfl
  | cons attr attrs ih =>
    have space : spaceOf? [] attr.name = some none := by
      rw [spaceOf?, if_pos (plain attr List.mem_cons_self).unqualified]
    rw [List.map_cons, List.nodup_cons] at distinct
    have rest : distinctIn [] ((none, attr.name.base) :: seen) attrs = true := by
      refine ih (fun other member => plain other (List.mem_cons_of_mem _ member)) distinct.2 ?_
      intro other member held
      rcases List.mem_cons.mp held with same | earlier
      · exact distinct.1 (List.mem_map.mpr ⟨other, member, (Prod.mk.inj same).2⟩)
      · exact fresh other (List.mem_cons_of_mem _ member) earlier
    simp [distinctIn, space, rest, fresh attr List.mem_cons_self]

/-- An element that can be written without namespaces and references. -/
structure PlainElement (name : String) (attrs : List Attribute) : Prop where
  named : PlainName name
  plain : ∀ attr ∈ attrs, PlainAttribute attr
  distinct : (attrs.map (·.name.base)).Nodup

private theorem qualify_plain {name : String} {attrs : List Attribute}
    (element : PlainElement name attrs) :
    qualify? [] ⟨"", name⟩ attrs = some (attrs, []) := by
  have kept : (attrs.filter fun attr => roleOf attr.name == .plain) = attrs := by
    rw [List.filter_eq_self]
    intro attr member
    simp [role_plain (element.plain attr member)]
  have distinct : distinctIn [] [] attrs = true :=
    distinct_plain element.plain element.distinct (by simp)
  simp [qualify?, declarations_plain element.plain, kept, elementInScope, distinct]

/-! ## Reading tags -/

namespace Reading

theorem read_opening {reading : Reading} {line : Nat} {name : String} {attrs : List Attribute}
    (element : PlainElement name attrs) (unscoped : reading.scope = [])
    (room : reading.path ≠ [] ∨ reading.root = none) :
    reading.readChunk? ⟨line, .tag (opening name attrs)⟩ =
      some { reading with path := ⟨line, ⟨"", name⟩, attrs, [], []⟩ :: reading.path } := by
  have values : (attrs.map rawOf).mapM (fun attr =>
      (attributeContent? attr.body).map (Attribute.mk attr.name ·)) = some attrs := by
    have plain := element.plain
    clear element
    induction attrs with
    | nil => rfl
    | cons attr attrs ih =>
      have rest := ih fun other member => plain other (List.mem_cons_of_mem _ member)
      have first := attributeContent_plain (plain attr List.mem_cons_self).value
      simp [List.mapM_cons, rawOf, first, rest]
  have admitted : (reading.path.isEmpty && reading.root.isSome) = false := by
    rcases room with inside | first
    · simp [inside]
    · simp [first]
  simp [readChunk?, tag_opening element.named element.plain, readTag?, values, unscoped,
    qualify_plain element, admitted]

theorem read_closing {element : Unfinished} {outer : List Unfinished} {root : Option Node}
    {line : Nat} {name : String} (named : PlainName name) (same : element.name = ⟨"", name⟩) :
    (⟨element :: outer, root⟩ : Reading).readChunk? ⟨line, .tag (closing name)⟩ =
      (⟨outer, root⟩ : Reading).place? element.node := by
  simp [readChunk?, tag_closing named, readTag?, same]

end Reading

end Framecode.Xml
