import Framecode.Command.Execute
import Framecode.Proofs.Results

/-! What commands read and write, whatever the files are kept in. A host works on a state, and
reading a file leaves it as it is. So all that a command finds out before it writes is a
function of the state that it starts in, and that function is said here without the steps of
the command. Statistics are the only thing that is written: one group after another, up to the
first that cannot be. -/
namespace Framecode.Command

variable {σ : Type}

/-! ## Steps that may fail -/

section

variable {α β : Type} {first : ExceptT Report (StateM σ) α}
  {second : α → ExceptT Report (StateM σ) β} {state after : σ}

/-- What comes second is done where the first part has left off. -/
theorem bind_after_ok {value : α} (done : first.run.run state = (.ok value, after)) :
    (first >>= second).run.run state = (second value).run.run after := by
  rw [ExceptT.run_bind, StateT.run_bind, done]
  rfl

/-- When the first part fails, that is all. -/
theorem bind_after_error {report : Report} (done : first.run.run state = (.error report, after)) :
    (first >>= second).run.run state = (.error report, after) := by
  rw [ExceptT.run_bind, StateT.run_bind, done]
  rfl

/-- A first part that changes nothing only matters for its result. -/
theorem bind_after_still {result : Except Report α} {continued : α → Except Report β}
    (done : first.run.run state = (result, state))
    (goes : ∀ value, (second value).run.run state = (continued value, state)) :
    (first >>= second).run.run state = (result >>= continued, state) := by
  cases result with
  | ok value => rw [bind_after_ok done, goes]; rfl
  | error report => rw [bind_after_error done]; rfl

private theorem lift_run (action : StateM σ α) (state : σ) :
    (liftM action : ExceptT Report (StateM σ) α).run.run state =
      (.ok (action.run state).1, (action.run state).2) := rfl

end

namespace Host

/-! ## Reading -/

/-- Reading changes nothing, be it a file or the standard input. -/
structure Steady (host : Host (StateM σ)) : Prop where
  file (path : String) (state : σ) : ((host.readFile path).run state).2 = state
  input (state : σ) : (host.readInput.run state).2 = state

/-- The text of a file, or why there is none. A text has to be UTF-8. -/
def textAt (host : Host (StateM σ)) (state : σ) (path : String) : Except FileError String :=
  match ((host.readFile path).run state).1 with
  | .error error => .error error
  | .ok bytes =>
    match String.fromUTF8? ⟨bytes.toArray⟩ with
    | some text => .ok text
    | none => .error .notText

/-- The bytes of a file that a run is to read from, or why it cannot be opened. A directory
can be opened, and there is nothing to read in it. -/
def bytesAt (host : Host (StateM σ)) (state : σ) (path : String) :
    Except FileError (List UInt8) :=
  match ((host.readFile path).run state).1 with
  | .error .isDirectory => .ok []
  | .error error => .error error
  | .ok bytes => .ok bytes

/-- The program in a file, or the report that there is none. -/
def programAt (host : Host (StateM σ)) (state : σ) (path : String) : Except Report Program :=
  (host.textAt state path).mapError (.unreadable path) >>= fun text =>
    readProgram (host.complaint text) path text

/-- The program that a file spells and its statistics, or the report that there are none. -/
def sourceAt (host : Host (StateM σ)) (state : σ) (path : String) :
    Except Report (Program × Source.Stats) :=
  (host.textAt state path).mapError (.unreadable path) >>= readSourceText path

/-- The bytes that a run reads from, or the report that there are none. -/
def inputAt (host : Host (StateM σ)) (state : σ) : Option String → Except Report (List UInt8)
  | none => .ok (host.readInput.run state).1
  | some path => (host.bytesAt state path).mapError (.unreadable path)

theorem programAt_held {host : Host (StateM σ)} {state : σ} {path text : String}
    (held : host.textAt state path = .ok text) :
    host.programAt state path = readProgram (host.complaint text) path text := by
  rw [programAt, held]
  rfl

private theorem readSourceText_eq (path text : String) : readSourceText path text =
    (Source.assembleWithStats text).mapError fun error =>
      .rejected path error.problem.exitCode error.message := by
  rw [readSourceText]
  cases Source.assembleWithStats text <;> rfl

theorem sourceAt_ok_iff {host : Host (StateM σ)} {state : σ} {path : String}
    {found : Program × Source.Stats} : host.sourceAt state path = .ok found ↔
      ∃ text, host.textAt state path = .ok text ∧ Source.assembleWithStats text = .ok found := by
  simp only [sourceAt, bind_ok_iff, mapError_ok_iff, readSourceText_eq]

/-- There is no program in a source file if there is no text in it, or if the text has a
fault. -/
theorem sourceAt_error_iff {host : Host (StateM σ)} {state : σ} {path : String}
    {report : Report} : host.sourceAt state path = .error report ↔
      (∃ error, host.textAt state path = .error error ∧ .unreadable path error = report) ∨
      ∃ text, host.textAt state path = .ok text ∧
        ∃ error, Source.assembleWithStats text = .error error ∧
          .rejected path error.problem.exitCode error.message = report := by
  simp only [sourceAt, bind_error_iff, mapError_ok_iff, mapError_error_iff, readSourceText_eq]

namespace Steady

variable {host : Host (StateM σ)} (steady : host.Steady) (state : σ) (path : String)

include steady

private theorem readFile_run :
    (liftM (host.readFile path) : ExceptT Report (StateM σ) _).run.run state =
    (.ok ((host.readFile path).run state).1, state) := by
  rw [lift_run, steady.file path state]

private theorem readText_run : (readText host path).run.run state =
    ((host.textAt state path).mapError (.unreadable path), state) := by
  rw [readText, bind_after_ok (steady.readFile_run state path), textAt]
  cases ((host.readFile path).run state).1 with
  | error error => rfl
  | ok bytes =>
    dsimp only
    cases String.fromUTF8? ⟨bytes.toArray⟩ <;> rfl

theorem loadFile_run : (loadFile host path).run.run state = (host.programAt state path, state) :=
  bind_after_still (steady.readText_run state path) fun _ => rfl

private theorem inputBytes_run (input : Option String) :
    (inputBytes host input).run.run state = (host.inputAt state input, state) := by
  cases input with
  | none =>
    rw [inputBytes, lift_run, steady.input state]
    rfl
  | some path =>
    rw [inputBytes, bind_after_ok (steady.readFile_run state path), inputAt, bytesAt]
    cases ((host.readFile path).run state).1 with
    | error error => cases error <;> rfl
    | ok bytes => rfl

end Steady

/-! ## Writing -/

/-- The report of every group in a list is written to its file, one after another. -/
inductive Written (host : Host (StateM σ)) (stats : Source.Stats) :
    List StatsGroup → σ → σ → Prop
  | nil (state : σ) : Written host stats [] state state
  | cons {group : StatsGroup} {rest : List StatsGroup} {state between after : σ}
      (here : (host.writeFile group.path (stats.report group.records)).run state =
        (.ok (), between))
      (later : Written host stats rest between after) :
      Written host stats (group :: rest) state after

/-- The reports of some groups are written, and that of the next one cannot be. -/
def Stuck (host : Host (StateM σ)) (stats : Source.Stats) (groups done : List StatsGroup)
    (group : StatsGroup) (error : FileError) (state after : σ) : Prop :=
  ∃ rest between, groups = done ++ group :: rest ∧ Written host stats done state between ∧
    (host.writeFile group.path (stats.report group.records)).run between = (.error error, after)

section

variable {host : Host (StateM σ)} {stats : Source.Stats} {group : StatsGroup}
  {groups done rest : List StatsGroup} {state between after : σ} {error : FileError}

private theorem writeGroups_next
    (here : (host.writeFile group.path (stats.report group.records)).run state =
      (.ok (), between)) :
    (writeGroups host stats (group :: rest)).run.run state =
      (writeGroups host stats rest).run.run between := by
  rw [writeGroups, bind_after_ok (lift_run _ state), here]

private theorem writeGroups_fails
    (here : (host.writeFile group.path (stats.report group.records)).run state =
      (.error error, after)) :
    (writeGroups host stats (group :: rest)).run.run state =
      (.error (.unwritable group.path error), after) := by
  rw [writeGroups, bind_after_ok (lift_run _ state), here]
  rfl

private theorem writeGroups_append (written : Written host stats done state between) :
    (writeGroups host stats (done ++ rest)).run.run state =
      (writeGroups host stats rest).run.run between := by
  induction written with
  | nil state => rfl
  | cons here later ih => rw [List.cons_append, writeGroups_next here, ih]

theorem writeGroups_of_stuck (stuck : Stuck host stats groups done group error state after) :
    (writeGroups host stats groups).run.run state =
      (.error (.unwritable group.path error), after) := by
  obtain ⟨rest, between, rfl, written, here⟩ := stuck
  rw [writeGroups_append written, writeGroups_fails here]

/-- All groups are written, or there is one that the writing stops at. -/
theorem writeGroups_cases (host : Host (StateM σ)) (stats : Source.Stats)
    (groups : List StatsGroup) (state : σ) : ∃ after,
    (writeGroups host stats groups).run.run state = (.ok (), after) ∧
        Written host stats groups state after ∨
      ∃ done group error, Stuck host stats groups done group error state after := by
  induction groups generalizing state with
  | nil => exact ⟨state, .inl ⟨rfl, .nil state⟩⟩
  | cons group rest ih =>
    cases here : (host.writeFile group.path (stats.report group.records)).run state with
    | mk result between =>
      cases result with
      | error error => exact ⟨between, .inr ⟨[], group, error, rest, state, rfl, .nil state, here⟩⟩
      | ok _ =>
        obtain ⟨after, ⟨done, written⟩ |
          ⟨before, last, error, left, reached, split, written, fails⟩⟩ := ih between
        · exact ⟨after, .inl ⟨(writeGroups_next here).trans done, .cons here written⟩⟩
        · exact ⟨after, .inr ⟨group :: before, last, error, left, reached, by rw [split]; rfl,
            .cons here written, fails⟩⟩

end

/-! ## Requests -/

namespace Steady

variable {host : Host (StateM σ)} (steady : host.Steady) (state : σ) (path : String) (fuel : Nat)

include steady

/-- What a run answers: it needs its program first, and then its input. -/
theorem perform_run (input : Option String) :
    ((Request.run path input).perform host fuel).run.run state =
      (do
        let program ← host.programAt state path
        let bytes ← host.inputAt state input
        return runReport fuel program ⟨bytes⟩, state) :=
  bind_after_still (steady.loadFile_run state path) fun _ =>
    bind_after_still (steady.inputBytes_run state input) fun _ => rfl

/-- A parse of a source text without a program in it writes nothing. -/
theorem perform_parse_refused {report : Report} (groups : List StatsGroup)
    (refused : host.sourceAt state path = .error report) :
    ((Request.parse path groups).perform host fuel).run.run state = (.error report, state) := by
  have found := steady.readText_run state path
  rw [Request.perform]
  rw [sourceAt] at refused
  cases held : (host.textAt state path).mapError (Report.unreadable path) with
  | error earlier =>
    rw [held] at refused
    cases refused
    exact bind_after_error (held ▸ found)
  | ok text =>
    rw [held] at refused
    rw [bind_after_ok (held ▸ found)]
    exact bind_after_error (congrArg (·, state) refused)

/-- What a parse answers: the document of the program in a source text, once the statistics
are written. -/
theorem perform_parse {program : Program} {stats : Source.Stats} (groups : List StatsGroup)
    (spelled : host.sourceAt state path = .ok (program, stats)) :
    ((Request.parse path groups).perform host fuel).run.run state =
      ((writeGroups host stats groups).run.run state).map
        (Except.map fun _ => some { status := 0, stdout := Interchange.write program }) id := by
  have found := steady.readText_run state path
  rw [Request.perform]
  rw [sourceAt] at spelled
  cases held : (host.textAt state path).mapError (Report.unreadable path) with
  | error earlier =>
    rw [held] at spelled
    cases spelled
  | ok text =>
    rw [held] at spelled
    rw [bind_after_ok (held ▸ found)]
    refine (bind_after_ok (congrArg (·, state) spelled)).trans ?_
    cases done : (writeGroups host stats groups).run.run state with
    | mk result after =>
      cases result with
      | error report => exact bind_after_error done
      | ok _ => exact bind_after_ok done

/-- What a check answers. -/
theorem perform_check : ((Request.check path).perform host fuel).run.run state =
    ((host.programAt state path).map fun program => some (checkReport path program), state) :=
  bind_after_still (steady.loadFile_run state path) fun _ => rfl

/-- What a disassembly answers. -/
theorem perform_disassemble : ((Request.disassemble path).perform host fuel).run.run state =
    ((host.programAt state path).map fun program =>
      some { status := 0, stdout := Source.listing program }, state) :=
  bind_after_still (steady.loadFile_run state path) fun _ => rfl

end Steady

/-- The report that a request ends with, be it the one it asks for or another. -/
def answer : Except Report (Option Report) → Option Report
  | .ok report => report
  | .error report => some report

/-- A command line that can be understood is answered as its request is. -/
theorem invoke_run {host : Host (StateM σ)} {args : List String} {request : Request}
    (understood : Request.ofArguments args = .ok request) (fuel : Nat) (state : σ) :
    (invoke host fuel args).run state =
      ((request.perform host fuel).run.run state).map answer id := by
  rw [invoke, understood]
  dsimp only
  rw [StateT.run_bind]
  cases (request.perform host fuel).run.run state with
  | mk result after => cases result <;> rfl

theorem invoke_ends {host : Host (StateM σ)} {args : List String} {request : Request} {fuel : Nat}
    {state after : σ} {result : Except Report (Option Report)}
    (understood : Request.ofArguments args = .ok request)
    (done : (request.perform host fuel).run.run state = (result, after)) :
    (invoke host fuel args).run state = (answer result, after) := by
  rw [invoke_run understood, done]
  rfl

end Host

end Framecode.Command
