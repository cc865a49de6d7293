import Framecode.Proofs.Text.Marks
import Framecode.Proofs.Xml.Tags

/-! What stands before the content of a document: a byte order mark and the declaration. How
far they reach is settled by their own characters, so a document keeps them when its content
is replaced by another one that starts in the same way. -/
namespace Framecode.Xml

/-! ## Attributes -/

private theorem skipSpace_before {lead : List Char} {c : Char}
    (space : ∀ d ∈ lead, isSpace d = true)
    (ends : isSpace c = false) (rest : List Char) : skipSpace (lead ++ c :: rest) = c :: rest := by
  have stops : (c :: rest).head?.any isSpace = false := ends
  exact (Text.run_ends space stops).2

private theorem skipSpace_parts (text : List Char) :
    ∃ lead, text = lead ++ skipSpace text ∧ (∀ c ∈ lead, isSpace c = true) ∧
      (skipSpace text).head?.any isSpace = false :=
  ⟨text.takeWhile isSpace, List.takeWhile_append_dropWhile.symm,
    List.all_eq_true.mp List.all_takeWhile, Text.run_stops isSpace text⟩

private theorem unnamed_of_isSpace {c : Char} (space : isSpace c = true) :
    continuesName c = false := by
  simp only [isSpace, Bool.or_eq_true, beq_iff_eq] at space
  rcases space with ((rfl | rfl) | rfl) | rfl
  all_goals decide

private theorem unspaced_of_isQuote {c : Char} (quote : isQuote c = true) : isSpace c = false := by
  simp only [isQuote, Bool.or_eq_true, beq_iff_eq] at quote
  rcases quote with rfl | rfl
  all_goals decide

/-- The text of an attribute: its name, an equals sign with white space around it, and the
quoted value. -/
inductive AttributeText (attr : RawAttribute) : List Char → Prop where
  | parts {spelled first second : List Char} {quote : Char}
      (letters : ∀ c ∈ spelled, continuesName c = true) (named : nameOf? spelled = some attr.name)
      (firstSpace : ∀ c ∈ first, isSpace c = true) (secondSpace : ∀ c ∈ second, isSpace c = true)
      (quotes : isQuote quote = true) (absent : quote ∉ attr.body)
      (allowed : (attr.body.all fun c => isAllowed c && c != '<') = true) :
      AttributeText attr
        (spelled ++ (first ++ '=' :: (second ++ quote :: (attr.body ++ [quote]))))

/-- An attribute is read where its text stands, whatever follows. -/
theorem attribute_read_iff {text following : List Char} {attr : RawAttribute} :
    attribute? text = some (attr, following) ↔
      ∃ lead, AttributeText attr lead ∧ text = lead ++ following := by
  constructor
  · intro found
    simp only [attribute?, Option.bind_eq_bind, Option.bind_eq_some_iff, Prod.exists] at found
    obtain ⟨name, afterName, named, afterSign, signed, body, rest, valued, accepted⟩ := found
    rw [Option.ite_none_right_eq_some] at accepted
    obtain ⟨allowed, same⟩ := accepted
    cases same
    obtain ⟨_, spelled, same⟩ := Option.map_eq_some_iff.mp named
    cases same
    obtain ⟨first, split, firstSpace, _⟩ := skipSpace_parts (text.dropWhile continuesName)
    obtain ⟨second, splitSign, secondSpace, _⟩ := skipSpace_parts afterSign
    rw [Text.after?_eq_some_iff] at signed
    cases quoting : skipSpace afterSign with
    | nil =>
      rw [quoting] at valued
      cases valued
    | cons quote tail =>
      rw [quoting] at valued splitSign
      rw [quoted?, Option.ite_none_right_eq_some, Text.cutAt_some_iff] at valued
      obtain ⟨quotes, rfl, absent⟩ := valued
      refine ⟨_, .parts (List.all_eq_true.mp List.all_takeWhile) spelled firstSpace secondSpace
        quotes absent allowed, ?_⟩
      rw [signed, splitSign] at split
      have whole := (List.takeWhile_append_dropWhile (p := continuesName) (l := text)).symm
      rw [split] at whole
      simpa using whole
  · rintro ⟨_, ⟨letters, named, firstSpace, secondSpace, quotes, absent, allowed⟩, rfl⟩
    rename_i spelled first second quote
    have valued : quoted? (quote :: (attr.body ++ quote :: following)) =
        some (attr.body, following) := by
      rw [quoted?, if_pos quotes, Text.cutAt_some_iff]
      exact ⟨rfl, absent⟩
    have signed := fun rest => skipSpace_before firstSpace (by decide : isSpace '=' = false) rest
    have opened := fun rest => skipSpace_before secondSpace (unspaced_of_isQuote quotes) rest
    have spelledOut : ∀ rest,
        name? (spelled ++ (first ++ '=' :: rest)) = some (attr.name, first ++ '=' :: rest) := by
      intro rest
      have ends : (first ++ '=' :: rest).head?.any continuesName = false := by
        cases first with
        | nil => exact (by decide : continuesName '=' = false)
        | cons c first => exact unnamed_of_isSpace (firstSpace c List.mem_cons_self)
      obtain ⟨taken, dropped⟩ := Text.run_ends letters ends
      rw [name?, taken, dropped, named]
      rfl
    simp only [List.append_assoc, List.cons_append, List.nil_append, attribute?, spelledOut,
      Option.bind_eq_bind, Option.bind_some, signed, Text.after?, ↓reduceIte, opened, valued,
      allowed]

/-! ## The declaration -/

/-- A reader takes a lead off every text that starts with it. -/
def Takes (reader : List Char → Option (List Char)) (lead : List Char) : Prop :=
  ∀ following, reader (lead ++ following) = some following

/-- An attribute of the declaration is taken whatever follows it. -/
theorem declared_takes {letters text following : List Char}
    (word : letters.all continuesName = true)
    (found : declared? letters text = some following) :
    ∃ lead, text = letters ++ lead ++ following ∧ Takes (declared? letters) (letters ++ lead) := by
  simp only [declared?, Option.bind_eq_bind, Option.bind_eq_some_iff, Option.pure_def,
    Option.some.injEq, Prod.exists, Text.after?_eq_some_iff] at found
  obtain ⟨rest, starts, attr, _, held, rfl⟩ := found
  obtain ⟨lead, written, whole⟩ := attribute_read_iff.mp held
  -- The text of the attribute starts with the letters, since an equals sign is none of them.
  obtain ⟨tail, rfl⟩ : letters <+: lead := by
    have both : lead <+: text := ⟨_, whole.symm⟩
    rcases List.prefix_or_prefix_of_prefix ⟨_, starts.symm⟩ both with inside | around
    · exact inside
    · have sign : '=' ∈ lead := by
        cases written
        simp
      exact absurd (List.all_eq_true.mp word '=' (around.subset sign)) (by decide)
  refine ⟨tail, whole, fun more => ?_⟩
  have again : attribute? (letters ++ tail ++ more) = some (attr, more) :=
    attribute_read_iff.mpr ⟨_, written, rfl⟩
  have led : Text.after? letters (letters ++ tail ++ more) = some (tail ++ more) :=
    Text.after?_eq_some_iff.mpr (List.append_assoc ..)
  simp only [declared?, led, again, Option.bind_eq_bind, Option.bind_some, Option.pure_def]

/-- No attribute is taken from a text that starts with another character. -/
theorem declared_none {letters : List Char} {c d : Char} (other : c ≠ d) (text : List Char) :
    declared? (c :: letters) (d :: text) = none := by
  simp only [declared?, Text.after?, if_neg other, Option.bind_eq_bind, Option.bind_none]

/-- The white space in a declaration is taken whatever follows what stands behind it. -/
theorem declarationSpace_takes {text lead following : List Char} (long : 2 ≤ lead.length)
    (found : declarationSpace? text = some (lead ++ following)) :
    ∃ space, text = space ++ (lead ++ following) ∧
      ∀ more, declarationSpace? (space ++ (lead ++ more)) = some (lead ++ more) := by
  obtain ⟨c, rest, rfl⟩ := List.exists_cons_of_length_pos (by omega : 0 < lead.length)
  rw [declarationSpace?, Option.ite_none_right_eq_some, Option.some.injEq] at found
  obtain ⟨allowed, skipped⟩ := found
  obtain ⟨space, split, spaced, ends⟩ := skipSpace_parts text
  rw [skipped] at split ends
  have solid : isSpace c = false := by simpa using ends
  refine ⟨space, split, fun more => ?_⟩
  rw [List.cons_append, declarationSpace?, skipSpace_before spaced solid, if_pos]
  subst split
  cases space with
  | cons d space =>
    simp [startsWithSpace, spaced d List.mem_cons_self]
  | nil =>
    simp only [List.nil_append, List.cons_append, startsWithSpace, List.head?_cons,
      Option.any_some, solid, List.isEmpty_cons, Bool.or_self, Bool.false_or] at allowed ⊢
    by_contra missing
    rw [Option.not_isSome_iff_eq_none] at missing
    have gone := @Text.after_none_append ['?', '>'] (c :: rest) long more following missing
    rw [List.cons_append] at gone
    rw [gone] at allowed
    cases allowed

/-- The end of the declaration, after white space. -/
def declarationEnd? (text : List Char) : Option (List Char) :=
  Text.after? ['?', '>'] (skipSpace text)

/-- The rest of the declaration, from where it may say that the document stands alone. -/
def standaloneOn? (text : List Char) : Option (List Char) :=
  declarationEnd?
    ((declared? ['s', 't', 'a', 'n', 'd', 'a', 'l', 'o', 'n', 'e'] text).getD text)

/-- The rest of the declaration, from where it may name an encoding. -/
def encodingOn? (text : List Char) : Option (List Char) :=
  (match declared? ['e', 'n', 'c', 'o', 'd', 'i', 'n', 'g'] text with
    | some following => declarationSpace? following
    | none => some text).bind standaloneOn?

private theorem skipDeclaration_eq (text : List Char) :
    skipDeclaration? text =
      match Text.after? ['<', '?', 'x', 'm', 'l', ' '] text with
      | none => some text
      | some rest => (declared? ['v', 'e', 'r', 's', 'i', 'o', 'n'] (skipSpace rest)).bind
          fun versioned => (declarationSpace? versioned).bind encodingOn? := by
  rw [skipDeclaration?]
  cases Text.after? ['<', '?', 'x', 'm', 'l', ' '] text with
  | none => rfl
  | some rest =>
    refine Option.bind_congr fun versioned _ => Option.bind_congr fun later _ => ?_
    rw [encodingOn?]
    cases declared? ['e', 'n', 'c', 'o', 'd', 'i', 'n', 'g'] later <;> rfl

/-- What a part of the declaration takes off a text. A lead is long enough for its end, and it
starts with a character that decides how to go on. -/
structure TakesOff (reader : List Char → Option (List Char)) (starts : Char → Prop)
    (text following : List Char) (lead : List Char) : Prop where
  whole : text = lead ++ following
  takes : Takes reader lead
  long : 2 ≤ lead.length
  first : ∀ c, lead.head? = some c → starts c

private theorem declarationEnd_takes {text following : List Char}
    (found : declarationEnd? text = some following) :
    ∃ lead, TakesOff declarationEnd? (fun c => isSpace c = true ∨ c = '?') text following lead := by
  rw [declarationEnd?, Text.after?_eq_some_iff] at found
  obtain ⟨space, split, spaced, _⟩ := skipSpace_parts text
  rw [found] at split
  refine ⟨space ++ ['?', '>'], by simpa using split, fun more => ?_, by simp, fun c first => ?_⟩
  · have skipped := skipSpace_before spaced (by decide : isSpace '?' = false) ('>' :: more)
    rw [declarationEnd?, Text.after?_eq_some_iff]
    simpa using skipped
  · cases space with
    | nil => exact .inr (Option.some.inj first).symm
    | cons d space =>
      cases first
      exact .inl (spaced _ List.mem_cons_self)

private theorem standaloneOn_takes {text following : List Char}
    (found : standaloneOn? text = some following) :
    ∃ lead, TakesOff standaloneOn? (· ≠ 'e') text following lead := by
  rw [standaloneOn?] at found
  cases declared : declared? ['s', 't', 'a', 'n', 'd', 'a', 'l', 'o', 'n', 'e'] text with
  | some rest =>
    rw [declared, Option.getD_some] at found
    obtain ⟨word, rfl, taken⟩ := declared_takes (by decide) declared
    obtain ⟨lead, rfl, takes, long, _⟩ := declarationEnd_takes found
    refine ⟨['s', 't', 'a', 'n', 'd', 'a', 'l', 'o', 'n', 'e'] ++ word ++ lead, by simp,
      fun more => ?_, by simp, ?_⟩
    · rw [standaloneOn?, List.append_assoc _ lead more, taken, Option.getD_some]
      exact takes more
    · rintro c first rfl
      cases first
  | none =>
    rw [declared, Option.getD_none] at found
    obtain ⟨lead, rfl, takes, long, starts⟩ := declarationEnd_takes found
    obtain ⟨c, rest, rfl⟩ := List.exists_cons_of_length_pos (by omega : 0 < lead.length)
    have first := starts c rfl
    refine ⟨_, rfl, fun more => ?_, long, ?_⟩
    · have other : 's' ≠ c := by
        rintro rfl
        exact absurd first (by decide)
      rw [standaloneOn?, List.cons_append, declared_none other, Option.getD_none]
      exact takes more
    · rintro d same rfl
      cases same
      exact absurd first (by decide)

private theorem encodingOn_takes {text following : List Char}
    (found : encodingOn? text = some following) :
    ∃ lead, TakesOff encodingOn? (fun _ => True) text following lead := by
  rw [encodingOn?] at found
  cases declared : declared? ['e', 'n', 'c', 'o', 'd', 'i', 'n', 'g'] text with
  | some rest =>
    simp only [declared, Option.bind_eq_some_iff] at found
    obtain ⟨later, spaced, found⟩ := found
    obtain ⟨word, rfl, taken⟩ := declared_takes (by decide) declared
    obtain ⟨lead, rfl, takes, long, _⟩ := standaloneOn_takes found
    obtain ⟨space, rfl, skips⟩ := declarationSpace_takes long spaced
    refine ⟨['e', 'n', 'c', 'o', 'd', 'i', 'n', 'g'] ++ word ++ space ++ lead, by simp,
      fun more => ?_, by simp, fun _ _ => trivial⟩
    have again := taken (space ++ (lead ++ more))
    simp only [encodingOn?, List.append_assoc] at again ⊢
    simp only [again, skips, Option.bind_some]
    exact takes more
  | none =>
    simp only [declared, Option.bind_some] at found
    obtain ⟨lead, rfl, takes, long, starts⟩ := standaloneOn_takes found
    obtain ⟨c, rest, rfl⟩ := List.exists_cons_of_length_pos (by omega : 0 < lead.length)
    refine ⟨_, rfl, fun more => ?_, long, fun _ _ => trivial⟩
    rw [encodingOn?, List.cons_append, declared_none (starts c rfl).symm]
    exact takes more

/-- A declaration is skipped whatever follows it. -/
theorem skipDeclaration_takes {text following rest : List Char}
    (opened : Text.after? ['<', '?', 'x', 'm', 'l', ' '] text = some rest)
    (found : skipDeclaration? text = some following) :
    ∃ lead, text = lead ++ following ∧ Takes skipDeclaration? lead := by
  rw [skipDeclaration_eq, opened] at found
  simp only [Option.bind_eq_some_iff] at found
  obtain ⟨versioned, declared, later, spaced, found⟩ := found
  obtain ⟨lead, rfl, takes, long, _⟩ := encodingOn_takes found
  obtain ⟨space, rfl, skips⟩ := declarationSpace_takes long spaced
  obtain ⟨word, skipped, taken⟩ := declared_takes (by decide) declared
  obtain ⟨front, split, fronted, _⟩ := skipSpace_parts rest
  rw [skipped] at split
  rw [Text.after?_eq_some_iff] at opened
  refine ⟨['<', '?', 'x', 'm', 'l', ' '] ++ front ++ (['v', 'e', 'r', 's', 'i', 'o', 'n'] ++ word) ++
    space ++ lead, by simp [opened, split], fun more => ?_⟩
  have behind := skipSpace_before fronted (by decide : isSpace 'v' = false)
    (['e', 'r', 's', 'i', 'o', 'n'] ++ word ++ (space ++ (lead ++ more)))
  have again := taken (space ++ (lead ++ more))
  rw [skipDeclaration_eq]
  simp only [List.append_assoc, List.cons_append, List.nil_append, Text.after?, ↓reduceIte]
    at again behind ⊢
  simp only [behind, again, Option.bind_some, skips]
  exact takes more

/-! ## The content -/

/-- The content of a document, after a byte order mark and the declaration. -/
def content? (text : List Char) : Option (List Char) :=
  skipDeclaration? ((Text.after? ['\uFEFF'] text).getD text)

/-- A text that is cut into chunks does not start a declaration that it does not hold. -/
theorem undeclared_append {text following : List Char} {chunk : Chunk}
    (first : chunk? text = some (chunk, following)) (filled : text ≠ [])
    (undeclared : Text.after? ['<', '?', 'x', 'm', 'l', ' '] text = none) (more : List Char) :
    Text.after? ['<', '?', 'x', 'm', 'l', ' '] (text ++ more) = none := by
  by_cases long : 6 ≤ text.length
  · have whole : Text.after? ['<', '?', 'x', 'm', 'l', ' '] (text ++ []) = none := by
      rwa [List.append_nil]
    exact Text.after_none_append (by simpa using long) more whole
  · -- A shorter text would be the start of a declaration, and that is not a chunk.
    rw [← Option.not_isSome_iff_eq_none, Option.isSome_iff_exists]
    rintro ⟨rest, starts⟩
    rw [Text.after?_eq_some_iff] at starts
    have short : text <+: ['<', '?', 'x', 'm', 'l', ' '] :=
      List.prefix_of_prefix_length_le ⟨more, starts⟩ (List.prefix_append _ rest)
        (by simp only [List.length_cons, List.length_nil]; omega)
    rw [← List.mem_inits] at short
    simp only [List.inits, List.map_cons, List.map_nil, List.mem_cons, List.not_mem_nil,
      or_false] at short
    rcases short with rfl | rfl | rfl | rfl | rfl | rfl | rfl
    case inl => exact filled rfl
    case inr.inr.inr.inr.inr.inr => cases undeclared
    all_goals cases first

/-- What stands before the content stays when the content goes on. -/
theorem content_append {text content following : List Char} {chunk : Chunk}
    (found : content? text = some content) (first : chunk? content = some (chunk, following))
    (filled : content ≠ []) (more : List Char) : content? (text ++ more) = some (content ++ more) := by
  have skipped : ∀ marked, skipDeclaration? marked = some content →
      skipDeclaration? (marked ++ more) = some (content ++ more) := by
    intro marked skips
    cases opened : Text.after? ['<', '?', 'x', 'm', 'l', ' '] marked with
    | some rest =>
      obtain ⟨lead, rfl, takes⟩ := skipDeclaration_takes opened skips
      rw [List.append_assoc]
      exact takes (content ++ more)
    | none =>
      rw [skipDeclaration_eq, opened] at skips
      cases skips
      rw [skipDeclaration_eq, undeclared_append first filled opened]
  cases text with
  | nil =>
    cases found
    exact absurd rfl filled
  | cons c rest =>
    by_cases marked : '\uFEFF' = c
    · simp only [content?, Text.after?, marked, ↓reduceIte, Option.getD_some,
        List.cons_append] at found ⊢
      exact skipped rest found
    · simp only [content?, Text.after?, marked, ↓reduceIte, Option.getD_none,
        List.cons_append] at found ⊢
      exact skipped (c :: rest) found

end Framecode.Xml
