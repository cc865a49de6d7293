import Framecode.Proofs.Command.Checking
import Framecode.Proofs.Command.Printed

/-! What a check of a file foretells about its runs. Both commands read the program in the same
way and load it in the same way, so a check that fails is the answer of every run. After a
check that passes, all that is left to a run is the execution of the loaded program, and what
can go wrong there is none of the things that a check looks for. -/
namespace Framecode

namespace Engine

/-- The causes that are about the way a program is built. -/
def Cause.OfLoading : Cause → Prop
  | .invalidOrder | .malformedInstruction _ | .duplicateLabel _ => True
  | _ => False

private theorem ofLoading_of_check {last : UInt32} {instructions : List Instruction} {fault : Fault}
    (refused : Code.check last instructions = .error fault) : fault.cause.OfLoading := by
  induction instructions generalizing last with
  | nil => cases refused
  | cons instr rest ih =>
    rw [Code.check] at refused
    split at refused
    · cases refused
      trivial
    · split at refused
      · exact ih refused
      · cases refused
        trivial

private theorem ofLoading_of_add {table : LabelTable} {position : Nat} {instr : Instruction}
    {fault : Fault} (refused : table.add position instr = .error fault) :
    fault.cause.OfLoading := by
  unfold LabelTable.add at refused
  split at refused
  · split at refused
    · cases refused
      trivial
    · split at refused
      · cases refused
        trivial
      · cases refused
  · cases refused

private theorem ofLoading_of_addAll {table : LabelTable} {start : Nat}
    {instructions : List Instruction}
    {fault : Fault} (refused : table.addAll start instructions = .error fault) :
    fault.cause.OfLoading := by
  induction instructions generalizing table start with
  | nil => cases refused
  | cons instr rest ih =>
    rw [LabelTable.addAll] at refused
    cases added : table.add start instr with
    | error found =>
      rw [added] at refused
      cases refused
      exact ofLoading_of_add added
    | ok next =>
      rw [added] at refused
      exact ih refused

/-- A program that does not load is badly built. -/
theorem ofLoading_of_load {program : Program} {fault : Fault}
    (refused : Code.load program = .error fault) : fault.cause.OfLoading := by
  simp only [Code.load] at refused
  cases checked : Code.check 0 program.sorted with
  | error found =>
    rw [checked] at refused
    cases refused
    exact ofLoading_of_check checked
  | ok passed =>
    rw [checked] at refused
    cases built : LabelTable.ofInstructions program.sorted with
    | error found =>
      rw [built] at refused
      cases refused
      exact ofLoading_of_addAll built
    | ok table =>
      rw [built] at refused
      cases refused

/-- A loaded program is not badly built, so no run of it says so. -/
theorem not_ofLoading_of_run {program : Program} {machine : Machine} {input : Input} {fuel : Nat}
    {fault : Fault} (loaded : Code.load program = .ok machine.code)
    (failed : (machine.run fuel (.initial input)).outcome = some (.failed fault)) :
    ¬ fault.cause.OfLoading := by
  obtain ⟨before, instr, _, fetched, refused, _⟩ := fault_at_last_fetched failed
  have formed := (load_ok loaded).2.1 instr (fetch_member fetched)
  have right := justified_of_effect formed refused
  intro built
  cases cause : fault.cause with
  | invalidOrder | malformedInstruction _ | duplicateLabel _ =>
    rw [cause] at right
    exact right
  | _ =>
    rw [cause] at built
    exact built

end Engine

namespace Command

open Engine
open Workspace (bytesOf)

/-! ## Reports -/

/-- A report of a failure before anything was printed. -/
structure Report.Refusal (report : Report) : Prop where
  failing : report.status ≠ 0
  silent : report.stdout = ""

private theorem refusal_of_unreadable (path : String) (error : FileError) :
    (Report.unreadable path error).Refusal :=
  ⟨Nat.succ_ne_zero 10, rfl⟩

private theorem refusal_of_document (path : String) (error : Interchange.Error)
    (complaint : Interchange.Complaint) :
    (Report.rejected path error.exitCode (error.message complaint)).Refusal := by
  refine ⟨?_, rfl⟩
  cases error with
  | malformed => exact Nat.succ_ne_zero 30
  | structural line problem => exact Nat.succ_ne_zero 31

private theorem refusal_of_source (path : String) (error : Source.Error) :
    (Report.rejected path error.problem.exitCode error.message).Refusal := by
  refine ⟨?_, rfl⟩
  simp only [Report.rejected]
  cases error.problem with
  | missingHeader => exact Nat.succ_ne_zero 20
  | unknownOpcode word => exact Nat.succ_ne_zero 21
  | misplacedHeader | argumentCount _ _ | argument _ _ => exact Nat.succ_ne_zero 22

private theorem refusal_of_fault (fault : Fault) : (Report.failed fault "").Refusal := by
  refine ⟨?_, rfl⟩
  simp only [Report.failed, Fault.exitCode]
  cases fault.cause.kind <;> decide

private theorem refusal_of_readProgram {complaint : Interchange.Complaint} {path text : String}
    {report : Report} (refused : readProgram complaint path text = .error report) :
    report.Refusal := by
  unfold readProgram at refused
  split at refused
  · split at refused
    · cases refused
    · cases refused
      exact refusal_of_document path _ complaint
  · split at refused
    · cases refused
    · cases refused
      exact refusal_of_source path _

/-- A file without a program in it is reported as a failure, and nothing is printed. -/
theorem refusal_of_programAt {σ : Type} {host : Host (StateM σ)} {state : σ} {path : String}
    {report : Report} (refused : host.programAt state path = .error report) : report.Refusal := by
  rw [Host.programAt, bind_error_iff] at refused
  rcases refused with unreadable | ⟨text, _, rejected⟩
  · obtain ⟨error, _, rfl⟩ := mapError_error_iff.mp unreadable
    exact refusal_of_unreadable path error
  · exact refusal_of_readProgram rejected

/-- How the end of an execution is reported, with what was written before it. -/
def outcomeReport (output : String) : Outcome → Report
  | .failed fault => .failed fault output
  | other => { status := other.status, stdout := output }

theorem runReport_loaded {program : Program} {code : Code} (loaded : Code.load program = .ok code)
    (fuel : Nat) (input : Input) :
    runReport fuel program input =
      (Machine.run ⟨code, .accepting⟩ fuel (.initial input)).outcome.map
        (outcomeReport (Machine.run ⟨code, .accepting⟩ fuel (.initial input)).state.output) := by
  simp only [runReport, loaded]
  congr 1

/-! ## Command lines -/

/-- The command lines that run a program: the file with its input, if there is one, is named
after the program or before it. -/
inductive RunLine (path : String) : Option String → List String → Prop
  | alone : RunLine path none ["run", path]
  | inputLast (file : String) : RunLine path (some file) ["run", path, "--input", file]
  | inputFirst (file : String) : RunLine path (some file) ["run", "--input", file, path]

private theorem arguments_of_runLine {path : String} {input : Option String} {args : List String}
    (plain : isOption path = false) (line : RunLine path input args) :
    Request.ofArguments args = .ok (.run path input) := by
  cases line with
  | alone => exact arguments_of_run plain []
  | inputLast file =>
    rw [arguments_of_run plain]
    rfl
  | inputFirst file =>
    have verb : Verb.ofWord? "run" = some .run := rfl
    have named : path ≠ "--input" := by
      rintro rfl
      cases plain
    simp only [Request.ofArguments, verb, Verb.request, readRun, named, plain, ↓reduceIte,
      Option.isSome_none, Option.isNone_none, Bool.false_eq_true, Bool.not_false, Bool.and_self]
    rfl

section

variable {σ : Type} {host : Host (StateM σ)} {state : σ} {path : String} {input : Option String}
  {args : List String}

/-- A file without a program in it is answered for by the same report whatever is asked. -/
theorem refused_answers {report : Report} (steady : host.Steady) (plain : isOption path = false)
    (line : RunLine path input args) (refused : host.programAt state path = .error report)
    (fuel : Nat) :
    (invoke host fuel ["check", path]).run state = (some report, state) ∧
      (invoke host fuel args).run state = (some report, state) := by
  have checked : Request.ofArguments ["check", path] = .ok (.check path) := rfl
  have asked := arguments_of_runLine plain line
  rw [Host.invoke_ends checked (steady.perform_check state path fuel),
    Host.invoke_ends asked (steady.perform_run state path fuel input), refused]
  exact ⟨rfl, rfl⟩

/-- What a run of a file answers once its input can be read. -/
theorem run_answers {program : Program} {bytes : List UInt8} (steady : host.Steady)
    (plain : isOption path = false) (line : RunLine path input args)
    (held : host.programAt state path = .ok program)
    (readable : host.inputAt state input = .ok bytes) (fuel : Nat) :
    (invoke host fuel args).run state = (runReport fuel program ⟨bytes⟩, state) := by
  have asked := arguments_of_runLine plain line
  rw [Host.invoke_ends asked (steady.perform_run state path fuel input), held, readable]
  rfl

end

/-- A check and a run of a file agree, on whatever host. The check always has an answer. If that is
a failure, nothing is printed, and every run with an input that can be read has the same answer,
with no instruction executed: no fuel is needed for it. Either there is no program in the file, or
it is badly built. If it is a success, there is a program in the file and it loads. Every run is
then the execution of the loaded program, which may still fail, but never for the way the
program is built. -/
theorem check_foretells_run {path : String} {input : Option String} {args : List String}
    (plain : isOption path = false) (line : RunLine path input args) {σ : Type}
    {host : Host (StateM σ)} (steady : host.Steady) (state : σ) (bytes : List UInt8)
    (readable : host.inputAt state input = .ok bytes) :
    ∃ verdict : Report,
      (∀ fuel, (invoke host fuel ["check", path]).run state = (some verdict, state)) ∧
      (verdict.status ≠ 0 → verdict.stdout = "" ∧
        (∀ fuel, (invoke host fuel args).run state = (some verdict, state)) ∧
        (host.programAt state path = .error verdict ∨ ∃ program fault,
          host.programAt state path = .ok program ∧ Code.load program = .error fault ∧
          fault.cause.OfLoading ∧ verdict = .failed fault "")) ∧
      (verdict.status = 0 → ∃ program code, host.programAt state path = .ok program ∧
        Code.load program = .ok code ∧
        ∀ fuel, ∃ ended, Machine.run ⟨code, .accepting⟩ fuel (.initial ⟨bytes⟩) = ended ∧
          (invoke host fuel args).run state =
            (ended.outcome.map (outcomeReport ended.state.output), state) ∧
          ∀ fault, ended.outcome = some (.failed fault) → ¬ fault.cause.OfLoading) := by
  cases held : host.programAt state path with
  | error report =>
    have refusal := refusal_of_programAt held
    have answers := refused_answers steady plain line held
    exact ⟨report, fun fuel => (answers fuel).1,
      fun _ => ⟨refusal.silent, fun fuel => (answers fuel).2, .inl rfl⟩,
      fun passed => absurd passed refusal.failing⟩
  | ok program =>
    cases loaded : Code.load program with
    | error fault =>
      have refusal := refusal_of_fault fault
      have built := ofLoading_of_load loaded
      refine ⟨.failed fault "", fun fuel => ?_, fun _ => ⟨rfl, fun fuel => ?_,
        .inr ⟨program, fault, rfl, loaded, built, rfl⟩⟩,
        fun passed => absurd passed refusal.failing⟩
      · rw [check_answers steady held, checkReport, loaded]
      · rw [run_answers steady plain line held readable, runReport, loaded]
    | ok code =>
      refine ⟨checkReport path program, check_answers steady held, fun failing => ?_, fun _ => ?_⟩
      · rw [checkReport, loaded] at failing
        exact absurd rfl failing
      · refine ⟨program, code, rfl, loaded, fun fuel => ⟨_, rfl, ?_, fun fault failed => ?_⟩⟩
        · rw [run_answers steady plain line held readable, runReport_loaded loaded]
        · exact not_ofLoading_of_run loaded failed

/-- A source text that defines a label twice. -/
def twiceText : String := ".IPPcode24\nWRITE int@1\nLABEL a\nLABEL a"

/-- The program that it spells. -/
def twiceProgram : Program :=
  ⟨[⟨1, .write, [⟨.literal .int, "1"⟩]⟩, ⟨2, .label, [⟨.label, "a"⟩]⟩,
    ⟨3, .label, [⟨.label, "a"⟩]⟩]⟩

/-- The text in a file, with one to read from. -/
def twiceFiles : Workspace := ⟨[("p", bytesOf twiceText), ("in", [49, 10])]⟩

theorem twice_refused_alike :
    isOption "p" = false ∧ RunLine "p" (some "in") ["run", "--input", "in", "p"] ∧
    (Workspace.host []).inputAt twiceFiles (some "in") = .ok [49, 10] ∧
    ∃ verdict : Report, verdict.status = 52 ∧ verdict.stdout = "" ∧
      (invoke (Workspace.host []) 0 ["check", "p"]).run twiceFiles = (some verdict, twiceFiles) ∧
      (invoke (Workspace.host []) 0 ["run", "--input", "in", "p"]).run twiceFiles =
        (some verdict, twiceFiles) := by
  have assembled : Source.assemble twiceText = .ok twiceProgram := by decide +kernel
  have steady := Workspace.host_steady []
  have held : (Workspace.host []).programAt twiceFiles "p" = .ok twiceProgram := by
    rw [Host.programAt_held (Host.textAt_held rfl (fromUTF8_bytesOf twiceText)),
      readProgram_assembled "p" assembled]
  have sorted : twiceProgram.sorted = twiceProgram.instructions :=
    sorted_eq_self_iff.mpr (by unfold Ordered; decide)
  have refused : Code.load twiceProgram = .error ⟨3, .duplicateLabel "a"⟩ := by
    rw [Code.load, sorted]
    rfl
  have plain : isOption "p" = false := rfl
  have line : RunLine "p" (some "in") ["run", "--input", "in", "p"] := .inputFirst "in"
  obtain ⟨verdict, checked, failing, _⟩ :=
    check_foretells_run plain line steady twiceFiles [49, 10] rfl
  have same := (check_answers steady held 0).symm.trans (checked 0)
  rw [checkReport, refused] at same
  cases same
  have runs := failing (by decide)
  exact ⟨plain, line, rfl, _, rfl, runs.1, checked 0, runs.2.1 0⟩

end Command

end Framecode
