import Framecode.Proofs.Text.Trimming
import Framecode.Proofs.Xml.Lines

/-! Comments and processing instructions, and what they part. A piece of markup is cut off in
the same way whatever follows it, so the chunks of a text stay when an aside is put behind it,
and the text may go on after that. Only a text that goes on is cut in two, and then both parts
are texts by themselves. -/
namespace Framecode.Xml

/-! ## Chunks -/

/-- Where a tag ends depends on nothing that follows it. -/
theorem cutTag_again {quote : Option Char} {text body following : List Char}
    (cut : cutTag? quote text = some (body, following)) (more : List Char) :
    cutTag? quote (body ++ '>' :: more) = some (body, more) := by
  induction text generalizing quote body with
  | nil => cases cut
  | cons c rest ih =>
    rw [cutTag?.eq_def] at cut
    dsimp only at cut
    split at cut
    · rename_i closing
      cases cut
      simp only [Bool.and_eq_true] at closing
      simp [cutTag?, closing.1]
    · rename_i inside
      obtain ⟨parts, found, same⟩ := Option.map_eq_some_iff.mp cut
      cases same
      rw [List.cons_append, cutTag?.eq_def]
      dsimp only
      rw [if_neg inside]
      simp only [ih found, Option.map_some]

section

variable {body more : List Char}

private theorem chunk_comment
    (closes : Text.cutAtAll? ['-', '-', '>'] (body ++ ['-', '-', '>'] ++ more) = some (body, more)) :
    chunk? ((Chunk.comment body).render ++ more) = some (.comment body, more) := by
  simp only [List.append_assoc, List.cons_append, List.nil_append] at closes
  simp only [Chunk.render, List.append_assoc, List.cons_append, List.nil_append, chunk?,
    Text.after?, ↓reduceIte, closes, Option.map_some]

private theorem chunk_cdata
    (closes : Text.cutAtAll? [']', ']', '>'] (body ++ [']', ']', '>'] ++ more) = some (body, more)) :
    chunk? ((Chunk.cdata body).render ++ more) = some (.cdata body, more) := by
  simp only [List.append_assoc, List.cons_append, List.nil_append] at closes
  simp [Chunk.render, chunk?, Text.after?, closes]

private theorem chunk_processing
    (closes : Text.cutAtAll? ['?', '>'] (body ++ ['?', '>'] ++ more) = some (body, more)) :
    chunk? ((Chunk.processing body).render ++ more) = some (.processing body, more) := by
  simp only [List.append_assoc, List.cons_append, List.nil_append] at closes
  simp [Chunk.render, chunk?, Text.after?, closes]

end

/-- A chunk that is cut off is either markup, which is cut off in the same way whatever
follows it, or a text, which goes on to the next bracket. -/
theorem chunk_cases {text following : List Char} {chunk : Chunk}
    (cut : chunk? text = some (chunk, following)) :
    (∀ more, chunk? (chunk.render ++ more) = some (chunk, more)) ∨
      ∃ body, chunk = .text body ∧ '<' ∉ body ∧ following.head?.any (· != '<') = false := by
  unfold chunk? at cut
  split at cut
  · obtain ⟨parts, found, same⟩ := Option.map_eq_some_iff.mp cut
    cases same
    exact .inl fun more => chunk_comment (Text.cutAtAll_again found more)
  split at cut
  · obtain ⟨parts, found, same⟩ := Option.map_eq_some_iff.mp cut
    cases same
    exact .inl fun more => chunk_cdata (Text.cutAtAll_again found more)
  split at cut
  · cases cut
  rename_i undeclared
  split at cut
  · obtain ⟨parts, found, same⟩ := Option.map_eq_some_iff.mp cut
    cases same
    exact .inl fun more => chunk_processing (Text.cutAtAll_again found more)
  rename_i unprocessed
  split at cut
  · rename_i rest opened
    obtain ⟨⟨body, later⟩, found, same⟩ := Option.map_eq_some_iff.mp cut
    cases same
    refine .inl fun more => ?_
    have again := cutTag_again found more
    rw [Text.after?_eq_some_iff] at opened
    rw [opened, eq_of_cutTag? found] at undeclared unprocessed
    cases body with
    | nil => rfl
    | cons c body =>
      simp [Text.after?] at undeclared unprocessed
      rw [List.cons_append] at again
      simp [chunk?, Text.after?, Chunk.render, again, undeclared, unprocessed]
  · cases cut
    refine .inr ⟨_, rfl, fun member => ?_, Text.run_stops _ text⟩
    cases List.all_eq_true.mp List.all_takeWhile _ member

theorem chunksOf_text {text following : List Char} (plain : '<' ∉ text)
    (ends : following.head?.any (· != '<') = false) :
    chunksOf? (text ++ following) = (chunksOf? following).map (textChunk text ++ ·) := by
  cases text with
  | nil => simp [textChunk]
  | cons c text =>
    rw [chunksOf_cons (chunk_text plain ends) (by simp)]
    rfl

/-- A text that is cut into chunks can go on. What was a text at its end goes on up to the
next bracket, and all other chunks stay. -/
theorem chunksOf_extend {text : List Char} {chunks : List Chunk}
    (cut : chunksOf? text = some chunks) :
    ∃ earlier last, chunks = earlier ++ textChunk last ∧ '<' ∉ last ∧
      ∀ more following, '<' ∉ more → following.head?.any (· != '<') = false →
        chunksOf? (text ++ (more ++ following)) =
          (chunksOf? following).map (earlier ++ textChunk (last ++ more) ++ ·) := by
  induction 0, text using chunks?.induct generalizing chunks with
  | case1 line =>
    rw [chunksOf_nil] at cut
    cases cut
    exact ⟨[], [], rfl, by simp, fun more following plain ends => chunksOf_text plain ends⟩
  | case2 line c rest uncut =>
    rw [chunksOf?, chunks?] at cut
    split at cut
    · cases cut
    · rename_i found
      rw [uncut] at found
      cases found
  | case3 line c rest chunk following found shorter ih =>
    rw [chunksOf_cons found (by simp), Option.map_eq_some_iff] at cut
    obtain ⟨later, cutLater, rfl⟩ := cut
    have whole := eq_of_chunk? found
    rcases chunk_cases found with again | ⟨body, rfl, plain, ends⟩
    · obtain ⟨earlier, last, rfl, plain, goesOn⟩ := ih cutLater
      refine ⟨chunk :: earlier, last, rfl, plain, fun more behind plainMore ends => ?_⟩
      have cutAgain := again (following ++ (more ++ behind))
      rw [← List.append_assoc, ← whole] at cutAgain
      rw [chunksOf_cons cutAgain (by simp), goesOn more behind plainMore ends, Option.map_map]
      rfl
    · obtain ⟨d, body, rfl⟩ : ∃ d tail, body = d :: tail := by
        refine List.exists_cons_of_ne_nil ?_
        rintro rfl
        have same := congrArg List.length whole
        simp only [Chunk.render, List.nil_append] at same
        omega
      cases following with
      | nil =>
        rw [chunksOf_nil] at cutLater
        cases cutLater
        refine ⟨[], d :: body, rfl, plain, fun more behind plainMore ends => ?_⟩
        have unbroken : '<' ∉ d :: body ++ more := fun member =>
          (List.mem_append.mp member).elim plain plainMore
        rw [whole, Chunk.render, List.append_nil, ← List.append_assoc]
        exact chunksOf_text unbroken ends
      | cons e following =>
        obtain ⟨earlier, last, rfl, plainLast, goesOn⟩ := ih cutLater
        refine ⟨.text (d :: body) :: earlier, last, rfl, plainLast,
          fun more behind plainMore endsMore => ?_⟩
        have cutAgain := @chunk_text d body (e :: following ++ (more ++ behind)) plain ends
        rw [← List.append_assoc] at cutAgain
        rw [whole, Chunk.render, chunksOf_cons cutAgain (by simp),
          goesOn more behind plainMore endsMore, Option.map_map]
        rfl

/-! ## Asides -/

/-- A comment or a processing instruction that may stand in the content of an element. -/
inductive IsAside : Chunk → Prop where
  | comment {body : List Char} (proper : isComment body = true) : IsAside (.comment body)
  | processing {body : List Char} (proper : isProcessing body = true)
      (closed : ¬ ['?', '>'] <:+: body) : IsAside (.processing body)

/-- An aside is cut off as it is written, whatever follows it. -/
theorem chunk_aside {aside : Chunk} (proper : IsAside aside) (more : List Char) :
    chunk? (aside.render ++ more) = some (aside, more) := by
  cases proper with
  | @comment body proper =>
    have absent : ¬ (['-', '-'] ++ ['>']) <:+: body := by
      simp only [isComment, Bool.and_eq_true, Option.isNone_iff_eq_none,
        Text.cutAtAll_none_iff] at proper
      exact fun inside => proper.1.2 ((List.prefix_append _ _).isInfix.trans inside)
    exact chunk_comment (@Text.cutAtAll_first ['-', '-'] body '>' (by decide) absent more)
  | @processing body proper closed =>
    exact chunk_processing (@Text.cutAtAll_first ['?'] body '>' (by decide) closed more)

theorem readChunk_aside {aside : Chunk} (proper : IsAside aside) (reading : Reading) (line : Nat) :
    reading.readChunk? ⟨line, aside⟩ = some reading.readGap := by
  cases proper with
  | comment proper => simp only [Reading.readChunk?, if_pos proper]
  | processing proper _ => simp only [Reading.readChunk?, if_pos proper]

/-! ## Texts in two parts -/

/-- The character of a piece. -/
def Piece.char : Piece → Char
  | .plain c | .referenced c => c

/-- A text that can be split into pieces can go on. -/
theorem pieces_append {first : List Char} {pieces : List Piece} (second : List Char)
    (split : pieces? first = some pieces) :
    pieces? (first ++ second) = (pieces? second).map (pieces ++ ·) := by
  induction first using pieces?.induct generalizing pieces with
  | case1 =>
    rw [pieces?] at split
    cases split
    simp
  | case2 rest uncut =>
    rw [pieces?, if_pos rfl] at split
    split at split
    · cases split
    · rename_i cut
      rw [uncut] at cut
      cases cut
  | case3 rest name following cut unnamed =>
    rw [pieces?, if_pos rfl] at split
    split at split
    · cases split
    · rename_i again
      rw [cut] at again
      cases again
      rw [unnamed] at split
      cases split
  | case4 rest name following cut named known shorter ih =>
    rw [pieces_reference cut known, Option.map_eq_some_iff] at split
    obtain ⟨later, splitLater, rfl⟩ := split
    obtain ⟨rfl, absent⟩ := Text.cutAt_some_iff.mp cut
    have again : Text.cutAt? ';' (name ++ ';' :: following ++ second) =
        some (name, following ++ second) :=
      Text.cutAt_some_iff.mpr ⟨by simp, absent⟩
    rw [List.cons_append, pieces_reference again known, ih splitLater, Option.map_map]
    rfl
  | case5 c rest other ih =>
    rw [pieces?, if_neg other, Option.map_eq_some_iff] at split
    obtain ⟨later, splitLater, rfl⟩ := split
    rw [List.cons_append, pieces?, if_neg other, ih splitLater, Option.map_map]
    rfl

/-- Normal line ends are blank where the line ends were. -/
theorem normalLines_blank (held exempt : Bool) (pieces : List Piece) :
    (normalLines held exempt pieces).all Text.isBlank =
      pieces.all fun piece => Text.isBlank piece.char := by
  have feed : Text.isBlank '\n' = true := by decide
  have carriage : Text.isBlank '\r' = true := by decide
  induction pieces generalizing held exempt with
  | nil => cases held <;> simp [normalLines, carriage]
  | cons piece rest ih =>
    cases piece with
    | referenced c =>
      by_cases returns : c = '\r'
      · cases held <;> simp [normalLines, returns, ih, carriage, Piece.char]
      · cases held <;> simp [normalLines, returns, ih, carriage, Piece.char]
    | plain c =>
      by_cases returns : c = '\r'
      · cases rest with
        | nil => cases held <;> cases exempt <;> simp [normalLines, returns, carriage, feed, Piece.char]
        | cons next rest =>
          cases held <;> cases exempt <;>
            simp [normalLines.eq_3, returns, carriage, feed, Piece.char, ih]
      · by_cases feeds : c = '\n'
        · cases held <;> cases exempt <;> simp [normalLines, feeds, carriage, feed, Piece.char, ih]
        · cases held <;> cases exempt <;>
            simp [normalLines, returns, feeds, carriage, feed, Piece.char, ih]

private theorem normalLines_begins (held exempt : Bool) (first second : List Piece) :
    Text.Begins (normalLines held exempt first) (normalLines held exempt (first ++ second)) := by
  induction first generalizing held exempt with
  | nil =>
    refine ⟨[], normalLines held exempt [], rfl, ?_, List.nil_prefix⟩
    rw [← List.all_eq_true, normalLines_blank]
    rfl
  | cons piece rest ih =>
    cases piece with
    | referenced c =>
      simp only [List.cons_append, normalLines]
      by_cases returns : c = '\r'
      · simp only [if_pos returns]
        exact (ih true true).behind _
      · simp only [if_neg returns]
        exact ((ih false true).behind [c]).behind _
    | plain c =>
      simp only [List.cons_append, normalLines]
      by_cases returns : c = '\r'
      · simp only [if_pos returns]
        cases exempt with
        | true => exact (ih true false).behind _
        | false =>
          simp only [Bool.false_eq_true, if_false]
          cases rest with
          | cons next rest => exact (ih true false).behind _
          | nil =>
            -- The carriage return is last in the first part, and perhaps not in the whole.
            have feed : ∀ c ∈ ['\n'], Text.isBlank c = true :=
              List.all_eq_true.mp (by decide : ['\n'].all Text.isBlank = true)
            refine ⟨if held then ['\n'] else [], ['\n'], rfl, feed, ?_⟩
            cases ([] ++ second).isEmpty <;> exact List.prefix_append _ _
      · simp only [if_neg returns]
        cases exempt with
        | true => exact ((ih false false).behind [c]).behind _
        | false =>
          simp only [Bool.false_eq_true, if_false]
          by_cases swallowed : (held && c == '\n') = true
          · simp only [if_pos swallowed]
            exact (ih false false).behind _
          · simp only [if_neg swallowed]
            exact ((ih false false).behind [c]).behind _

/-- How the content of a text relates to the contents of two parts of it: nothing blank comes
from parts that are not blank, and the first part begins the whole, line ends apart. -/
structure Joins (first second whole : String) : Prop where
  blank : Text.isBlankText whole = true →
    Text.isBlankText first = true ∧ Text.isBlankText second = true
  begins : Text.Begins first.toList whole.toList

/-- A text that is cut in two between its pieces has both parts as texts. -/
theorem textContent_parts {first second : List Char} {before whole : String}
    (start : textContent? first = some before) (all : textContent? (first ++ second) = some whole) :
    ∃ rest, textContent? second = some rest ∧ Joins before rest whole := by
  rw [textContent?, Option.ite_none_right_eq_some, Option.map_eq_some_iff] at start all
  obtain ⟨_, pieces, split, rfl⟩ := start
  obtain ⟨allowed, joined, splitAll, rfl⟩ := all
  rw [pieces_append second split, Option.map_eq_some_iff] at splitAll
  obtain ⟨later, splitLater, rfl⟩ := splitAll
  simp only [List.all_append, Bool.and_eq_true, Option.isNone_iff_eq_none,
    Text.cutAtAll_none_iff] at allowed
  have unclosed : (Text.cutAtAll? [']', ']', '>'] second).isNone = true := by
    rw [Option.isNone_iff_eq_none, Text.cutAtAll_none_iff]
    exact fun inside => allowed.2 (inside.trans (List.suffix_append first second).isInfix)
  refine ⟨String.ofList (normalLines false false later), ?_, ?_, ?_⟩
  · rw [textContent?, allowed.1.2, unclosed, splitLater]
    rfl
  · simp only [Text.isBlankText, String.toList_ofList, normalLines_blank, List.all_append,
      Bool.and_eq_true, imp_self]
  · rw [String.toList_ofList, String.toList_ofList]
    exact normalLines_begins false false pieces later

end Framecode.Xml
