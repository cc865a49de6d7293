import Framecode.Proofs.Command.Files
import Framecode.Proofs.Interchange.Document
import Framecode.Proofs.Source.Acceptance
import Framecode.Proofs.Source.Separators
import Framecode.Proofs.Text.Trimming
import Framecode.Proofs.Xml.Moves

/-! How a program file is told to be a document or source text. A document starts with a
bracket, and the first word of a source text is its header, which starts with a dot; so a
text that can be assembled is never taken for a document, and a document that can be read
always is one. So no text is both, and a file is read by whichever reader accepts it. -/
namespace Framecode.Command

open Source

/-! ## The first word of a text -/

/-- A blank at the start of a line is not part of any word. -/
theorem tokens_blank {c : Char} (blank : Text.isBlank c = true) (line : List Char) :
    tokens (c :: line) = tokens line := by
  have uncommented : (c != '#') = true := by
    rw [bne_iff_ne]
    rintro rfl
    cases blank
  simp only [← wordsOf_eq_tokens, wordsOf, List.takeWhile_cons, uncommented, ↓reduceIte]
  exact congrArg (List.map String.ofList) (Text.words_append_blank blank [] _)

/-- A line that starts with no separator has a first word, which starts as the line does. -/
theorem tokens_plain {c : Char} (plain : Plain c) (line : List Char) :
    ∃ word others, tokens (c :: line) = String.ofList (c :: word) :: others := by
  obtain ⟨word, more, pieces⟩ := List.exists_cons_of_ne_nil
    (List.splitOnP_ne_nil Text.isBlank (line.takeWhile (· != '#')))
  have uncommented : (c != '#') = true := bne_iff_ne.mpr plain.2
  refine ⟨word, (more.filter (!·.isEmpty)).map String.ofList, ?_⟩
  simp only [tokens, List.takeWhile_cons, uncommented, ↓reduceIte,
    List.splitOnP_cons_eq_if_modifyHead, plain.1, pieces]
  rfl

/-- Where blanks and then a character that is no separator start a text, the first word of
its first line that counts starts with that character. -/
theorem spelledLine_first {lead tail : List Char} {c : Char}
    (blank : ∀ d ∈ lead, Text.isBlank d = true) (plain : Plain c) (start : Nat) :
    ∃ line rest word others, (((lead ++ c :: tail).splitOn '\n').zipIdx start).filterMap
      spelledLine? = line :: rest ∧ line.words = String.ofList (c :: word) :: others := by
  -- A blank before the text ends a line without a word, or belongs to its first line.
  induction lead generalizing start with
  | nil =>
    have unbroken : c ≠ '\n' := by
      rintro rfl
      exact absurd plain.1 (by decide)
    obtain ⟨piece, more, pieces⟩ := List.exists_cons_of_ne_nil (List.splitOn_ne_nil '\n' tail)
    obtain ⟨word, others, words⟩ := tokens_plain plain piece
    refine ⟨⟨start, tokens (c :: piece)⟩, (more.zipIdx (start + 1)).filterMap spelledLine?, word,
      others, ?_, words⟩
    rw [List.nil_append, List.splitOn_cons_eq_if_modifyHead, if_neg (by simpa using unbroken),
      pieces, List.modifyHead_cons, List.zipIdx_cons, List.filterMap_cons]
    simp only [spelledLine?, words, reduceCtorEq, ↓reduceIte]
  | cons first lead ih =>
    have blankFirst := blank first List.mem_cons_self
    have later := ih fun d member => blank d (List.mem_cons_of_mem _ member)
    rw [List.cons_append, List.splitOn_cons_eq_if_modifyHead]
    by_cases breaks : first = '\n'
    · rw [if_pos (by simpa using breaks), List.zipIdx_cons, List.filterMap_cons]
      exact later (start + 1)
    · obtain ⟨piece, more, pieces⟩ :=
        List.exists_cons_of_ne_nil (List.splitOn_ne_nil '\n' (lead ++ c :: tail))
      have found := later start
      rw [pieces, List.zipIdx_cons, List.filterMap_cons] at found
      rw [if_neg (by simpa using breaks), pieces, List.modifyHead_cons, List.zipIdx_cons,
        List.filterMap_cons]
      simp only [spelledLine?, tokens_blank blankFirst] at found ⊢
      exact found

/-- The header starts with a dot, in any case. -/
theorem header_first {c : Char} {word : List Char}
    (header : isHeader (String.ofList (c :: word)) = true) : c.toLower = '.' := by
  rw [isHeader, Text.sameWord, beq_iff_eq, Text.foldCase, String.toList_ofList,
    List.map_cons] at header
  exact (List.cons.inj header).1

/-- What an assembled text starts with, blanks apart: if that is no number sign, it is a
dot. -/
theorem first_of_assembled {text : String} {program : Program}
    (assembled : assemble text = .ok program) {lead tail : List Char} {c : Char}
    (whole : text.toList = lead ++ c :: tail) (blank : ∀ d ∈ lead, Text.isBlank d = true)
    (plain : Plain c) : c.toLower = '.' := by
  obtain ⟨head, rest, _, found, ⟨word, single, header⟩, _⟩ := assembled_sequence assembled
  obtain ⟨line, others, letters, more, first, words⟩ := @spelledLine_first lead tail c blank plain 1
  rw [spelledLines, whole, first] at found
  cases found
  rw [words] at single
  cases single
  exact header_first header

/-! ## Documents and source texts -/

/-- A text that can be assembled is not taken for a document. -/
theorem isDocument_of_assembled {text : String} {program : Program}
    (assembled : assemble text = .ok program) : isDocument text = false := by
  rw [isDocument, beq_eq_false_iff_ne]
  intro starts
  cases chars : text.toList with
  | nil =>
    rw [chars] at starts
    cases starts
  | cons first rest =>
    by_cases marked : first = '\uFEFF'
    · -- A byte order mark is part of a word, and then the first word is not the header.
      subst marked
      exact absurd (@first_of_assembled _ _ assembled [] rest _ chars (by simp) (by decide))
        (by decide)
    · rw [chars, List.dropWhile_cons_of_neg (by simpa using marked), ← chars] at starts
      obtain ⟨lead, whole, blank⟩ := Text.dropBlanks_lead text.toList
      obtain ⟨tail, opened⟩ := List.head?_eq_some_iff.mp starts
      rw [Text.trimStart] at opened
      rw [opened] at whole
      exact absurd (first_of_assembled assembled whole blank (by decide)) (by decide)

/-- A document that was written is taken for one. -/
theorem isDocument_write (program : Program) : isDocument (Interchange.write program) = true := by
  have bracket : Xml.declaration.head? = some '<' := rfl
  have opened : (Interchange.write program).toList.head? = some '<' := by
    rw [Interchange.program_marks_written, List.head?_append, bracket, Option.some_or]
  obtain ⟨tail, whole⟩ := List.head?_eq_some_iff.mp opened
  rw [isDocument, whole]
  rfl

private theorem isBlank_of_isSpace {c : Char} (space : Xml.isSpace c = true) :
    Text.isBlank c = true := by
  simp only [Xml.isSpace, Bool.or_eq_true, beq_iff_eq] at space
  rcases space with ((rfl | rfl) | rfl) | rfl
  all_goals decide

/-- White space and a bracket at the start of a text, perhaps after a byte order mark, are
enough for it to be taken for a document. -/
theorem isDocument_of_start {text : String} {lead tail : List Char}
    (starts : (Text.after? ['\uFEFF'] text.toList).getD text.toList = lead ++ '<' :: tail)
    (space : ∀ c ∈ lead, Xml.isSpace c = true) : isDocument text = true := by
  have unmarked : (lead ++ '<' :: tail).dropWhile (· == '\uFEFF') = lead ++ '<' :: tail := by
    cases lead with
    | nil => rfl
    | cons c lead =>
      refine List.dropWhile_cons_of_neg fun marked => ?_
      rw [beq_iff_eq] at marked
      exact absurd (space c List.mem_cons_self) (by rw [marked]; decide)
  have dropped : text.toList.dropWhile (· == '\uFEFF') = lead ++ '<' :: tail := by
    cases marked : Text.after? ['\uFEFF'] text.toList with
    | none =>
      rw [marked] at starts
      rw [show text.toList = lead ++ '<' :: tail from starts, unmarked]
    | some rest =>
      rw [marked] at starts
      rw [Text.after?_eq_some_iff.mp marked, List.singleton_append,
        List.dropWhile_cons_of_pos (by decide), show rest = lead ++ '<' :: tail from starts,
        unmarked]
  rw [isDocument, dropped, Text.trimStart,
    List.dropWhile_append_of_pos fun c member => isBlank_of_isSpace (space c member)]
  rfl

/-- A document that can be read is taken for one. -/
theorem isDocument_of_read {text : String} {program : Program}
    (known : Interchange.read text = .ok program) : isDocument text = true := by
  rw [Interchange.read] at known
  cases formed : Xml.document? text with
  | none =>
    rw [formed] at known
    cases known
  | some node =>
    obtain ⟨lead, tail, starts, space⟩ := Xml.document_start formed
    exact isDocument_of_start starts space

/-- A text is read as a program exactly when one of the two readers accepts it, and then as
the program of that reader. -/
theorem readProgram_ok_iff {complaint : Interchange.Complaint} {path text : String}
    {program : Program} : readProgram complaint path text = .ok program ↔
      assemble text = .ok program ∨ Interchange.read text = .ok program := by
  rw [readProgram]
  by_cases document : isDocument text = true
  · have unassembled : assemble text ≠ .ok program := by
      intro assembled
      rw [isDocument_of_assembled assembled] at document
      cases document
    rw [if_pos document]
    cases Interchange.read text <;> simp [unassembled]
  · have unread : Interchange.read text ≠ .ok program :=
      fun known => document (isDocument_of_read known)
    rw [if_neg document]
    cases assemble text <;> simp [unread]

/-- What is read from a source text that can be assembled is the program that it spells. -/
theorem readProgram_assembled {complaint : Interchange.Complaint} {text : String}
    {program : Program} (path : String) (assembled : assemble text = .ok program) :
    readProgram complaint path text = .ok program :=
  readProgram_ok_iff.mpr (.inl assembled)

/-- A text is never taken for the wrong form: what can be assembled is no document, and what
can be read as a document is one. So no text is accepted by both readers, and a file that
holds a text, on whatever host, is loaded exactly when one of them accepts it, as the program of
that reader. -/
theorem detection_never_misroutes (text : String) :
    (∀ program, assemble text = .ok program → isDocument text = false) ∧
    (∀ program, Interchange.read text = .ok program → isDocument text = true) ∧
    (∀ program other, ¬(assemble text = .ok program ∧ Interchange.read text = .ok other)) ∧
    ∀ {σ : Type} (host : Host (StateM σ)), host.Steady →
      ∀ (state : σ) (bytes : List UInt8) (path : String),
      ((host.readFile path).run state).1 = .ok bytes →
      String.fromUTF8? ⟨bytes.toArray⟩ = some text →
      ∀ program, (loadFile host path).run.run state = (.ok program, state) ↔
        assemble text = .ok program ∨ Interchange.read text = .ok program := by
  refine ⟨fun _ => isDocument_of_assembled, fun _ => isDocument_of_read, ?_, ?_⟩
  · rintro program other ⟨assembled, known⟩
    have document := isDocument_of_read known
    rw [isDocument_of_assembled assembled] at document
    cases document
  · intro σ host steady state bytes path held decoded program
    rw [steady.loadFile_run, Host.programAt_held (Host.textAt_held held decoded), Prod.mk.injEq,
      readProgram_ok_iff]
    exact and_iff_left rfl

/-- A document behind a byte order mark, a blank line and a comment that holds the header of
source texts. -/
def markedDocument : String := "\uFEFF\n<!-- .IPPcode24 --><program language=\"IPPcode24\"/>"

/-- The document in a file. -/
def markedFiles : Workspace := ⟨[("p", Workspace.bytesOf markedDocument)]⟩

theorem marked_document_loads :
    markedFiles.read "p" = .ok (Workspace.bytesOf markedDocument) ∧
    isDocument markedDocument = true ∧ (∀ program, assemble markedDocument ≠ .ok program) ∧
    (loadFile (Workspace.host []) "p").run.run markedFiles = (.ok ⟨[]⟩, markedFiles) := by
  have known : Interchange.read markedDocument = .ok ⟨[]⟩ := by decide +kernel
  have held : markedFiles.read "p" = .ok (Workspace.bytesOf markedDocument) := rfl
  obtain ⟨_, document, unshared, loads⟩ := detection_never_misroutes markedDocument
  refine ⟨held, document _ known, fun program assembled => ?_, ?_⟩
  · exact unshared program _ ⟨assembled, known⟩
  · have loaded := loads (Workspace.host []) (Workspace.host_steady []) markedFiles _ "p" held
      (fromUTF8_bytesOf markedDocument) ⟨[]⟩
    exact loaded.mpr (.inr known)

end Framecode.Command
