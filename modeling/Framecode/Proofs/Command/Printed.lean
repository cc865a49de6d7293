import Framecode.Proofs.Command.Detection
import Framecode.Proofs.Command.Files
import Framecode.Proofs.Interchange.Listed
import Framecode.Proofs.Source.Statistics
import Mathlib.Data.List.Induction

/-! What a parse prints, run as a program. The document holds the program that the source
text spells, so it does what the text does, with whatever input it is run, provided that
it can be read at all. That fails for a string with a control character in it: source
text lets the character through, and the document holds it as it is. -/
namespace Framecode.Command

open Source
open Workspace (bytesOf)
open Interchange (Printable)

/-! ## Arguments of commands -/

/-- A run looks for its input in the same way whatever program is run. -/
theorem readRun_program (path other : String) (input : Option String) (args : List String) :
    readRun (some path) input args =
      (readRun (some other) input args).map fun found => (path, found.2) := by
  induction args using List.twoStepInduction generalizing input with
  | nil => rfl
  | singleton arg =>
    simp only [readRun, Option.isNone_some, Bool.false_and, Bool.false_eq_true, ↓reduceIte]
    split <;> rfl
  | cons_cons arg next rest ih _ =>
    rw [readRun, readRun]
    simp only [Option.isNone_some, Bool.false_and, Bool.false_eq_true, ↓reduceIte]
    split
    · split
      · rfl
      · exact ih (some next)
    · rfl

/-- What the arguments of a run ask for, when the program is named first. -/
theorem arguments_of_run {path : String} (plain : isOption path = false) (rest : List String) :
    Request.ofArguments ("run" :: path :: rest) =
      match readRun (some path) none rest with
      | .ok found => .ok (.run found.1 found.2)
      | .error problem => .error (.misuse .run problem) := by
  have named : path ≠ "--input" := by
    rintro rfl
    cases plain
  have verb : Verb.ofWord? "run" = some .run := rfl
  have read : readRun none none (path :: rest) = readRun (some path) none rest := by
    rw [readRun.eq_def]
    simp only [named, plain, ↓reduceIte, Option.isNone_none, Bool.not_false, Bool.and_self]
  simp only [Request.ofArguments, verb, Verb.request, read]
  cases readRun (some path) none rest <;> rfl

/-- An argument that is no option starts with none of the words for options. -/
theorem after_none_of_plain {arg : String} {word : List Char} (plain : isOption arg = false)
    (option : Text.after? ['-', '-'] word ≠ none) : Text.after? word arg.toList = none := by
  cases found : Text.after? word arg.toList with
  | none => rfl
  | some following =>
    obtain ⟨tail, rfl⟩ : ∃ tail, word = ['-', '-'] ++ tail := by
      obtain ⟨tail, known⟩ := Option.ne_none_iff_exists'.mp option
      exact ⟨tail, Text.after?_eq_some_iff.mp known⟩
    rw [Text.after?_eq_some_iff, List.append_assoc, ← Text.after?_eq_some_iff] at found
    rw [isOption, found] at plain
    cases plain

theorem statOption_of_plain {arg : String} (plain : isOption arg = false) :
    statOption? arg = none := by
  unfold statOption?
  split
  all_goals first
    | cases plain
    | rw [after_none_of_plain plain (by decide)]
  rfl

/-- What the arguments of a parse ask for, when there is nothing but the source. -/
theorem arguments_of_parse {path : String} (plain : isOption path = false) :
    Request.ofArguments ["parse", path] = .ok (.parse path []) := by
  have verb : Verb.ofWord? "parse" = some .parse := rfl
  have unnamed : statsPath? path = none := by
    rw [statsPath?, after_none_of_plain plain (by decide)]
    rfl
  have read : readParse none [] [path] = .ok (path, []) := by
    simp only [readParse, unnamed, statOption_of_plain plain, plain, Option.isNone_none,
      Bool.not_false, Bool.and_self, ↓reduceIte, List.reverse_nil]
  simp only [Request.ofArguments, verb, Verb.request, read]
  rfl

section

variable {σ : Type} {host : Host (StateM σ)} {state : σ}

/-- Two files with the same program in them are run alike, whatever the other arguments. -/
theorem run_same_program (steady : host.Steady) {path other : String} {program : Program}
    (plain : isOption path = false) (plainToo : isOption other = false)
    (held : host.programAt state path = .ok program)
    (heldToo : host.programAt state other = .ok program) (fuel : Nat) (rest : List String) :
    (invoke host fuel ("run" :: path :: rest)).run state =
      (invoke host fuel ("run" :: other :: rest)).run state := by
  have asked := arguments_of_run plain rest
  have askedToo := arguments_of_run plainToo rest
  rw [readRun_program path other] at asked
  rw [readRun_program other other] at askedToo
  cases found : readRun (some other) none rest with
  | error problem =>
    rw [found] at asked askedToo
    simp only [invoke, asked, askedToo, Except.map]
  | ok request =>
    rw [found] at asked askedToo
    rw [Host.invoke_ends asked (steady.perform_run state _ fuel _),
      Host.invoke_ends askedToo (steady.perform_run state _ fuel _)]
    simp only [held, heldToo]

/-! ## Printed documents -/

private theorem writeInstruction_filled (instr : Instruction) :
    0 < (Interchange.writeInstruction instr).utf8ByteSize := by
  unfold Interchange.writeInstruction
  have lead : 0 < "  <instruction order=\"".utf8ByteSize := by decide
  simp only [String.utf8ByteSize_append, Nat.add_pos_iff_pos_or_pos, lead, true_or]

private theorem length_le_joined (instructions : List Instruction) : instructions.length ≤
    (String.join (instructions.map Interchange.writeInstruction)).utf8ByteSize := by
  induction instructions with
  | nil => exact Nat.zero_le _
  | cons instr rest ih =>
    have first := writeInstruction_filled instr
    rw [List.map_cons, String.join_cons, String.utf8ByteSize_append, List.length_cons]
    omega

/-- A document has at least one byte for every instruction. -/
theorem length_le_document (program : Program) :
    program.instructions.length ≤ (Interchange.write program).utf8ByteSize := by
  have same : program.sorted.length = program.instructions.length := List.length_mergeSort _
  have body := length_le_joined program.sorted
  unfold Interchange.write
  -- What stands around the body is of no interest, and long to evaluate.
  generalize String.join (program.sorted.map Interchange.writeInstruction) = joined at body ⊢
  simp only [String.utf8ByteSize_append, ← same]
  exact Nat.le_add_right_of_le (Nat.le_add_left_of_le body)

/-- What a parse prints is a document of the program, whatever strings it holds. -/
theorem parse_prints (steady : host.Steady) {path text : String} {program : Program}
    (plain : isOption path = false) (held : host.textAt state path = .ok text)
    (assembled : assemble text = .ok program) (fuel : Nat) :
    (invoke host fuel ["parse", path]).run state =
      (some { status := 0, stdout := Interchange.write program }, state) := by
  have spelled := Host.sourceAt_ok_iff.mpr
    ⟨text, held, assembleWithStats_ok_iff.mpr ⟨assembled, rfl⟩⟩
  rw [Host.invoke_run (arguments_of_parse plain), steady.perform_parse state path fuel [] spelled]
  rfl

end

/-- A document that a parse prints, of fewer than 2^32 bytes, can be run exactly when no
string literal of the source text holds a character that documents may not hold. It is then
read as the very program that the text spells, so that with any other arguments, files and
standard input a run of it answers as a run of the text does. Otherwise it is not a document
at all, and a run of it ends with status 31 and prints nothing. -/
theorem printed_document_runs_iff {text : String} {program : Program}
    (assembled : assemble text = .ok program)
    (small : (Interchange.write program).utf8ByteSize < UInt32.size) :
    (Interchange.read (Interchange.write program) = .ok program ↔ Printable program) ∧
    (¬Printable program → Interchange.read (Interchange.write program) = .error .malformed) ∧
    ∀ {σ : Type} (host : Host (StateM σ)), host.Steady →
      ∀ (state : σ) (fuel : Nat) (source printed : String),
      isOption source = false → ((host.readFile source).run state).1 = .ok (bytesOf text) →
      isOption printed = false →
      ((host.readFile printed).run state).1 = .ok (bytesOf (Interchange.write program)) →
      (invoke host fuel ["parse", source]).run state =
        (some { status := 0, stdout := Interchange.write program }, state) ∧
      (Printable program → ∀ rest,
        (invoke host fuel ("run" :: printed :: rest)).run state =
          (invoke host fuel ("run" :: source :: rest)).run state) ∧
      (¬Printable program → ∃ report : Report,
        (invoke host fuel ["run", printed]).run state = (some report, state) ∧
        report.status = 31 ∧ report.stdout = "") := by
  have few : program.instructions.length < UInt32.size :=
    Nat.lt_of_le_of_lt (length_le_document program) small
  have listable := listable_of_assembled few assembled
  obtain ⟨recovered, malformed⟩ := Interchange.read_write_listable listable
  refine ⟨⟨fun same => ?_, recovered⟩, malformed, ?_⟩
  · by_contra unprintable
    rw [malformed unprintable] at same
    cases same
  · intro σ host steady state fuel source printed plain held plainToo heldToo
    have spelled := Host.textAt_held held (fromUTF8_bytesOf text)
    have document := Host.programAt_held (Host.textAt_held heldToo (fromUTF8_bytesOf _))
    rw [readProgram, isDocument_write, if_pos rfl] at document
    refine ⟨parse_prints steady plain spelled assembled fuel, fun printable rest => ?_,
      fun unprintable => ?_⟩
    · rw [recovered printable] at document
      refine run_same_program steady plainToo plain document ?_ fuel rest
      rw [Host.programAt_held spelled, readProgram_assembled source assembled]
    · rw [malformed unprintable] at document
      have asked := arguments_of_run plainToo []
      rw [readRun] at asked
      rw [Host.invoke_ends asked (steady.perform_run state printed fuel none), document]
      exact ⟨_, rfl, rfl, rfl⟩

/-- A source text whose string is escaped in a document. -/
def bracketText : String := ".IPPcode24\nWRITE string@<a>&\\032"

/-- The program that it spells. -/
def bracketProgram : Program := ⟨[⟨1, .write, [⟨.literal .string, "<a>&\\032"⟩]⟩]⟩

/-- The text and its document in two files. -/
def bracketFiles : Workspace :=
  ⟨[("a", bytesOf bracketText), ("b", bytesOf (Interchange.write bracketProgram))]⟩

theorem bracket_document_runs :
    assemble bracketText = .ok bracketProgram ∧
    (Interchange.write bracketProgram).utf8ByteSize < UInt32.size ∧ Printable bracketProgram ∧
    Interchange.read (Interchange.write bracketProgram) = .ok bracketProgram ∧
    (invoke (Workspace.host []) 9 ["run", "b"]).run bracketFiles =
      (invoke (Workspace.host []) 9 ["run", "a"]).run bracketFiles := by
  have assembled : assemble bracketText = .ok bracketProgram := by decide +kernel
  have small : (Interchange.write bracketProgram).utf8ByteSize < UInt32.size := by decide +kernel
  have printable : Printable bracketProgram := by
    simp [Printable, bracketProgram, Interchange.ForbiddenChar]
  obtain ⟨same, _, files⟩ := printed_document_runs_iff assembled small
  obtain ⟨_, runs, _⟩ := files (Workspace.host []) (Workspace.host_steady []) bracketFiles 9
    "a" "b" rfl rfl rfl rfl
  exact ⟨assembled, small, printable, same.mpr printable, runs printable []⟩

/-- A source text that writes the control character with code point one. -/
def controlText : String := ".IPPcode24\nWRITE string@\x01"

/-- The program that it spells. -/
def controlProgram : Program := ⟨[⟨1, .write, [⟨.literal .string, "\x01"⟩]⟩]⟩

theorem control_document_malformed :
    assemble controlText = .ok controlProgram ∧
    (Interchange.write controlProgram).utf8ByteSize < UInt32.size ∧
    Interchange.read (Interchange.write controlProgram) ≠ .ok controlProgram := by
  refine ⟨by decide +kernel, by decide +kernel, ?_⟩
  have forbidden : Interchange.Forbidden controlProgram.instructions :=
    ⟨_, List.mem_cons_self, _, List.mem_cons_self, '\x01', by simp, .inl (by decide)⟩
  rw [Interchange.read_forbidden forbidden]
  intro same
  cases same

end Framecode.Command
