import Framecode.Proofs.Command.Hosts
import Framecode.Proofs.Engine.Agreement
import Framecode.Proofs.Engine.Runs

/-! The stages of a command. The arguments are read first, then the program file, the program
in its text, and the input file of a run; then statistics are written, and at last a program is
loaded and run. What can fail in each of them is said here on its own, without the steps of the
command. No two stages share a status, but for the two that read files and the two that look at
the structure of a program. -/
namespace Framecode

/-! ## Exits -/

namespace Engine

variable {machine : Machine} {input : Input} {state last : State} {status : Nat}

/-- The run on some input executes an EXIT whose value is a number. -/
def Machine.Exits (machine : Machine) (input : Input) (number : Int) : Prop :=
  ∃ state instr source value, Reached machine input state ∧
    machine.code.fetch? state.next = some instr ∧ instr.opcode = .exit ∧ instr.args = [source] ∧
    state.frames.valueOf source = .ok (.int value) ∧ value.toInt = number

private theorem step_exited_iff : machine.step state = .finished (.exited status) last ↔
    ∃ instr, machine.code.fetch? state.next = some instr ∧
      machine.effect state instr = .ok (.stop status) ∧ last = state.fetched instr := by
  unfold Machine.step
  cases fetched : machine.code.fetch? state.next with
  | none => simp
  | some instr =>
    constructor
    · intro ran
      simp only at ran
      split at ran
      · cases ran
      · rename_i stopped
        cases ran
        exact ⟨instr, rfl, stopped, rfl⟩
      · cases ran
    · rintro ⟨_, same, stopped, rfl⟩
      cases same
      simp only [stopped]

private theorem exitStatus_ok_iff {value : Value} : exitStatus value = .ok status ↔
    status ≤ maxExitStatus ∧ ∃ code, value = .int code ∧ code.toInt = status := by
  cases value with
  | int code =>
    simp only [exitStatus, Value.int.injEq, exists_eq_left']
    split
    · rename_i allowed
      rw [Except.ok.injEq]
      omega
    · rename_i refused
      constructor
      · intro wrong
        cases wrong
      · rintro ⟨small, same⟩
        exact absurd ⟨by omega, by omega⟩ refused
  | _ => simp [exitStatus]

/-- The status that a run ends with is the value of the EXIT that it executes. -/
theorem ends_exited_iff : machine.Ends input (.exited status) ↔
    status ≤ maxExitStatus ∧ machine.Exits input status := by
  constructor
  · rintro ⟨state, last, reached, ran⟩
    obtain ⟨instr, fetched, stopped, _⟩ := step_exited_iff.mp ran
    obtain ⟨operation, found, planned⟩ := effect_ok_iff.mp stopped
    cases planned with
    | @exit source value _ valued allowed =>
      obtain ⟨small, code, rfl, same⟩ := exitStatus_ok_iff.mp allowed
      obtain ⟨opcode, args⟩ := origin_of_operation found rfl
      exact ⟨small, state, instr, source, code, reached, fetched, opcode, args, valued, same⟩
  · rintro ⟨small, state, instr, source, code, reached, fetched, opcode, args, valued, same⟩
    have found : operation? instr = some (.exit source) := by rw [operation?, opcode, args]
    have planned : Planned machine state (.exit source) (.stop status) :=
      .exit valued (exitStatus_ok_iff.mpr ⟨small, code, rfl, same⟩)
    exact ⟨state, _, reached,
      step_exited_iff.mpr ⟨instr, fetched, effect_ok_iff.mpr ⟨_, found, planned⟩, rfl⟩⟩

end Engine

namespace Command

open Engine

/-! ## What can fail -/

/-- The stages of a command. -/
inductive Stage where
  | arguments
  | program
  | text
  | input
  | statistics
  | engine
  deriving DecidableEq, Repr

namespace Stage

/-- The stages come one after another. -/
def rank : Stage → Nat
  | .arguments => 0
  | .program => 1
  | .text => 2
  | .input => 3
  | .statistics => 4
  | .engine => 5

/-- The statuses that a failure in a stage can have. -/
def statuses : Stage → List Nat
  | .arguments => [10]
  | .program | .input => [11]
  | .text => [21, 22, 23, 31, 32]
  | .statistics => [12]
  | .engine => [32, 52, 53, 54, 55, 56, 57, 58, 99]

private theorem kind_exitCode_mem (kind : Kind) : kind.exitCode ∈ Stage.engine.statuses := by
  cases kind <;> decide

theorem eq_of_rank {one other : Stage} (same : one.rank = other.rank) : one = other := by
  cases one <;> cases other <;> first | rfl | cases same

/-- Two stages share a status only where both read a file, or where a document and the engine
find fault with the structure of a program. -/
theorem shared {one other : Stage} {status : Nat} (here : status ∈ one.statuses)
    (there : status ∈ other.statuses) :
    one = other ∨
      (status = 11 ∧ (one = .program ∧ other = .input ∨ one = .input ∧ other = .program)) ∨
      (status = 32 ∧ (one = .text ∧ other = .engine ∨ one = .engine ∧ other = .text)) := by
  cases one <;> cases other <;> simp [statuses] at here there ⊢ <;> omega

end Stage

/-- What is wrong with a text that should hold a program in one form or the other. -/
inductive TextError where
  | source (error : Source.Error)
  | document (error : Interchange.Error)
  deriving DecidableEq, Repr

namespace TextError

/-- The exit status for a fault of a text. -/
def exitCode : TextError → Nat
  | .source error => error.problem.exitCode
  | .document error => error.exitCode

/-- The wording of a fault of a text, for which the parser of documents is heard. -/
def message (complaint : Interchange.Complaint) : TextError → String
  | .source error => error.message
  | .document error => error.message complaint

private theorem exitCode_mem (error : TextError) : error.exitCode ∈ Stage.text.statuses := by
  cases error with
  | source error =>
    simp only [exitCode]
    cases error.problem <;> simp [Source.Problem.exitCode, Stage.statuses]
  | document error => cases error <;> simp [exitCode, Interchange.Error.exitCode, Stage.statuses]

/-- The report of a fault of the text in a file. -/
def report (path : String) (complaint : Interchange.Complaint) (error : TextError) : Report :=
  .rejected path error.exitCode (error.message complaint)

end TextError

/-- What can go wrong in the stages of a command. -/
inductive Failure where
  | arguments (error : UsageError)
  | program (path : String) (error : FileError)
  | text (path : String) (complaint : Interchange.Complaint) (error : TextError)
  | input (path : String) (error : FileError)
  | statistics (path : String) (error : FileError)
  | engine (fault : Fault)
  deriving DecidableEq, Repr

namespace Failure

/-- The stage that a failure belongs to. -/
def stage : Failure → Stage
  | .arguments _ => .arguments
  | .program .. => .program
  | .text .. => .text
  | .input .. => .input
  | .statistics .. => .statistics
  | .engine _ => .engine

/-- The status that a command ends with when a failure is its first. -/
def status : Failure → Nat
  | .arguments _ => 10
  | .program .. | .input .. => 11
  | .text _ _ error => error.exitCode
  | .statistics .. => 12
  | .engine fault => fault.exitCode

/-- Whether a failure is about the structure of a document that is well formed. -/
def Structural : Failure → Prop
  | .text _ _ (.document (.structural ..)) => True
  | _ => False

/-- The report of a failure. Only a failure of the engine comes after some output. -/
def report (output : String) : Failure → Report
  | .arguments error => .usage error
  | .program path error | .input path error => .unreadable path error
  | .text path complaint error => error.report path complaint
  | .statistics path error => .unwritable path error
  | .engine fault => .failed fault output

theorem report_status (failure : Failure) (output : String) :
    (failure.report output).status = failure.status := by
  cases failure <;> rfl

theorem status_mem (failure : Failure) : failure.status ∈ failure.stage.statuses := by
  cases failure with
  | text path complaint error => exact error.exitCode_mem
  | engine fault => exact Stage.kind_exitCode_mem fault.cause.kind
  | _ => exact List.mem_singleton.mpr rfl

theorem status_high (failure : Failure) : 10 ≤ failure.status := by
  have member := failure.status_mem
  cases failed : failure.stage <;> rw [failed] at member <;>
    simp only [Stage.statuses, List.mem_cons, List.not_mem_nil, or_false] at member <;> omega

private theorem structural_of_status {failure : Failure} (textual : failure.stage = .text)
    (status : failure.status = 32) : failure.Structural := by
  cases failure with
  | text path complaint error =>
    cases error with
    | source error =>
      have other : error.problem.exitCode ≠ 32 := by
        cases error.problem <;> simp [Source.Problem.exitCode]
      exact absurd status other
    | document error =>
      cases error with
      | malformed => cases status
      | structural line problem => trivial
  | _ => cases textual

/-- A status tells its stage, except that a program and an input cannot be read alike, and that
the engine may blame a program as a document is blamed for its structure. -/
theorem stage_of_status {one other : Failure} (same : one.status = other.status) :
    one.stage = other.stage ∨
      (one.status = 11 ∧ (one.stage = .program ∧ other.stage = .input ∨
        one.stage = .input ∧ other.stage = .program)) ∨
      (one.status = 32 ∧ (one.Structural ∧ other.stage = .engine ∨
        one.stage = .engine ∧ other.Structural)) := by
  rcases Stage.shared one.status_mem (same ▸ other.status_mem) with
    alike | files | ⟨status, ⟨textual, engine⟩ | ⟨engine, textual⟩⟩
  · exact .inl alike
  · exact .inr (.inl files)
  · exact .inr (.inr ⟨status, .inl ⟨structural_of_status textual status, engine⟩⟩)
  · exact .inr (.inr ⟨status, .inr ⟨engine, structural_of_status textual (same ▸ status)⟩⟩)

end Failure

/-! ## What the stages of a request need -/

/-- The program that a text spells, be it a document or source text. -/
def readEither (text : String) : Except TextError Program :=
  if isDocument text then (Interchange.read text).mapError .document
  else (Source.assemble text).mapError .source

namespace Request

/-- The program file of a request. -/
def file? : Request → Option String
  | .run path _ | .parse path _ | .check path | .disassemble path => some path
  | .help => none

/-- The program that a request finds in a text. A parse takes every text for source text. -/
def read (text : String) : Request → Except TextError Program
  | .parse .. => (Source.assemble text).mapError .source
  | _ => readEither text

/-- The input file of a request. -/
def inputFile? : Request → Option String
  | .run _ input => input
  | _ => none

/-- The statistics that a request asks for. -/
def groups : Request → List StatsGroup
  | .parse _ groups => groups
  | _ => []

/-- Whether a request loads its program. -/
def Loads : Request → Prop
  | .run .. | .check _ => True
  | _ => False

end Request

section

variable {σ : Type} (host : Host (StateM σ)) (state : σ) (args : List String)

/-- The arguments are understood as a request, and its program file holds a text. -/
structure Opens (request : Request) (path text : String) : Prop where
  understood : Request.ofArguments args = .ok request
  named : request.file? = some path
  held : host.textAt state path = .ok text

/-- The arguments ask for a run, all that it needs is there, and its program loads. -/
def Starts (code : Code) (bytes : List UInt8) : Prop :=
  ∃ path input text program, Opens host state args (.run path input) path text ∧
    readEither text = .ok program ∧ host.inputAt state input = .ok bytes ∧
    Code.load program = .ok code

/-- The failures of the stages of a command. Each stage is seen on its own: it may fail whether
or not another one does. -/
inductive Occurs : Failure → Prop
  | arguments {error : UsageError} (rejected : Request.ofArguments args = .error error) :
      Occurs (.arguments error)
  | program {request : Request} {path : String} {error : FileError}
      (understood : Request.ofArguments args = .ok request) (named : request.file? = some path)
      (unreadable : host.textAt state path = .error error) : Occurs (.program path error)
  | text {request : Request} {path text : String} {error : TextError}
      (opens : Opens host state args request path text)
      (rejected : request.read text = .error error) :
      Occurs (.text path (host.complaint text) error)
  | input {request : Request} {path : String} {error : FileError}
      (understood : Request.ofArguments args = .ok request)
      (named : request.inputFile? = some path)
      (unreadable : host.bytesAt state path = .error error) : Occurs (.input path error)
  | statistics {request : Request} {path text : String} {program : Program}
      {stats : Source.Stats} {done : List StatsGroup} {group : StatsGroup} {error : FileError}
      {after : σ} (opens : Opens host state args request path text)
      (assembled : Source.assembleWithStats text = .ok (program, stats))
      (stuck : host.Stuck stats request.groups done group error state after) :
      Occurs (.statistics group.path error)
  | loading {request : Request} {path text : String} {program : Program} {fault : Fault}
      (opens : Opens host state args request path text)
      (read : request.read text = .ok program) (loads : request.Loads)
      (refused : Code.load program = .error fault) : Occurs (.engine fault)
  | running {code : Code} {bytes : List UInt8} {fault : Fault}
      (starts : Starts host state args code bytes)
      (failed : Machine.Ends ⟨code, .accepting⟩ ⟨bytes⟩ (.failed fault)) :
      Occurs (.engine fault)

/-- No stage before the given one fails. -/
def Clear (stage : Stage) : Prop :=
  ∀ failure, Occurs host state args failure → stage.rank ≤ failure.stage.rank

/-- A failure of the first stage that fails. -/
structure FirstFailure (failure : Failure) : Prop where
  occurs : Occurs host state args failure
  first : Clear host state args failure.stage

end

section

variable {σ : Type} {host : Host (StateM σ)} {state : σ} {args : List String}
  {request : Request} {path text : String} {program : Program} {stage other : Stage}

private theorem Clear.next (clear : Clear host state args stage)
    (passed : ∀ failure, Occurs host state args failure → failure.stage ≠ stage)
    (behind : other.rank = stage.rank + 1) : Clear host state args other := by
  intro failure occurs
  have atLeast := clear failure occurs
  have notSame : failure.stage.rank ≠ stage.rank :=
    fun same => passed failure occurs (Stage.eq_of_rank same)
  omega

theorem clear_program (understood : Request.ofArguments args = .ok request) :
    Clear host state args .program := by
  have start : Clear host state args .arguments := fun _ _ => Nat.zero_le _
  refine start.next (fun failure occurs same => ?_) rfl
  cases occurs with
  | arguments rejected =>
    rw [understood] at rejected
    cases rejected
  | _ => cases same

/-- The text that a request works on is the only one. -/
theorem Opens.unique {found : Request} {file content : String}
    (opens : Opens host state args request path text)
    (opensToo : Opens host state args found file content) :
    request = found ∧ path = file ∧ text = content := by
  obtain ⟨understood, named, held⟩ := opens
  obtain ⟨understoodToo, namedToo, heldToo⟩ := opensToo
  cases understood.symm.trans understoodToo
  cases named.symm.trans namedToo
  cases held.symm.trans heldToo
  exact ⟨rfl, rfl, rfl⟩

theorem clear_text (opens : Opens host state args request path text) :
    Clear host state args .text := by
  refine (clear_program opens.understood).next (fun failure occurs same => ?_) rfl
  cases occurs with
  | program understood named unreadable =>
    cases opens.understood.symm.trans understood
    cases opens.named.symm.trans named
    cases opens.held.symm.trans unreadable
  | _ => cases same

theorem clear_input (opens : Opens host state args request path text)
    (read : request.read text = .ok program) : Clear host state args .input := by
  refine (clear_text opens).next (fun failure occurs same => ?_) rfl
  cases occurs with
  | text opensToo rejected =>
    obtain ⟨rfl, rfl, rfl⟩ := opens.unique opensToo
    cases read.symm.trans rejected
  | _ => cases same

theorem clear_statistics (opens : Opens host state args request path text)
    (read : request.read text = .ok program)
    (readable : ∀ file, request.inputFile? = some file →
      ∃ bytes, host.bytesAt state file = .ok bytes) :
    Clear host state args .statistics := by
  refine (clear_input opens read).next (fun failure occurs same => ?_) rfl
  cases occurs with
  | input understood named unreadable =>
    cases opens.understood.symm.trans understood
    obtain ⟨bytes, held⟩ := readable _ named
    cases held.symm.trans unreadable
  | _ => cases same

theorem clear_engine (clear : Clear host state args .statistics)
    (opens : Opens host state args request path text)
    (written : ∀ program stats, Source.assembleWithStats text = .ok (program, stats) →
      ∃ after, (writeGroups host stats request.groups).run.run state = (.ok (), after)) :
    Clear host state args .engine := by
  refine clear.next (fun failure occurs same => ?_) rfl
  cases occurs with
  | statistics opensToo assembled stuck =>
    obtain ⟨rfl, rfl, rfl⟩ := opens.unique opensToo
    obtain ⟨after, done⟩ := written _ _ assembled
    rw [Host.writeGroups_of_stuck stuck] at done
    cases done
  | _ => cases same

end

end Command

end Framecode
