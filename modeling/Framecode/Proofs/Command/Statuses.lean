import Framecode.Proofs.Command.Stages
import Framecode.Proofs.Command.Verdicts

/-! What the status of a command tells. A command that ends either has a first stage that fails,
and then answers with the report of that failure, or it has none. All failures have statuses
from ten upwards, each stage its own; below that a status is the value of an EXIT, or zero. -/
namespace Framecode.Command

open Engine

section

variable {σ : Type} {host : Host (StateM σ)} {state after : σ} {args : List String}
  {request : Request} {path text : String} {program : Program} {code : Code}
  {bytes : List UInt8} {failure found : Failure} {fuel : Nat} {report : Report}

/-! ## How a command concludes -/

private theorem Starts.loads (starts : Starts host state args code bytes)
    (opens : Opens host state args request path text) (read : request.read text = .ok program) :
    Code.load program = .ok code := by
  obtain ⟨file, input, content, spelled, opensToo, spells, _, loaded⟩ := starts
  obtain ⟨rfl, rfl, rfl⟩ := opens.unique opensToo
  cases read.symm.trans spells
  exact loaded

private theorem Starts.unique {other : Code} {content : List UInt8}
    (starts : Starts host state args code bytes)
    (startsToo : Starts host state args other content) :
    code = other ∧ bytes = content := by
  obtain ⟨path, input, text, program, opens, spells, held, loaded⟩ := starts
  obtain ⟨file, source, _, _, opensToo, spellsToo, heldToo, loadedToo⟩ := startsToo
  obtain ⟨same, rfl, rfl⟩ := opens.unique opensToo
  cases same
  cases spells.symm.trans spellsToo
  cases held.symm.trans heldToo
  cases loaded.symm.trans loadedToo
  exact ⟨rfl, rfl⟩

/-- All failures of one stage have the same status. -/
theorem status_unique (occurs : Occurs host state args failure)
    (occursToo : Occurs host state args found) (same : failure.stage = found.stage) :
    failure.status = found.status := by
  cases occurs with
  | arguments _ | program _ _ _ | input _ _ _ | statistics _ _ _ =>
    cases found with
    | arguments _ | program _ _ | input _ _ | statistics _ _ => first | rfl | cases same
    | _ => cases same
  | text opens rejected =>
    cases occursToo with
    | text opensToo rejectedToo =>
      obtain ⟨rfl, rfl, rfl⟩ := opens.unique opensToo
      cases rejected.symm.trans rejectedToo
      rfl
    | _ => cases same
  | loading opens read loads refused =>
    cases occursToo with
    | loading opensToo readToo _ refusedToo =>
      obtain ⟨rfl, rfl, rfl⟩ := opens.unique opensToo
      cases read.symm.trans readToo
      cases refused.symm.trans refusedToo
      rfl
    | running starts failed => cases refused.symm.trans (starts.loads opens read)
    | _ => cases same
  | running starts failed =>
    cases occursToo with
    | loading opens read _ refused => cases refused.symm.trans (starts.loads opens read)
    | running startsToo failedToo =>
      obtain ⟨rfl, rfl⟩ := starts.unique startsToo
      cases ends_unique failed failedToo
      rfl
    | _ => cases same

private theorem FirstFailure.status_unique (first : FirstFailure host state args failure)
    (firstToo : FirstFailure host state args found) : failure.status = found.status := by
  have before := first.first found firstToo.occurs
  have behind := firstToo.first failure first.occurs
  exact Command.status_unique first.occurs firstToo.occurs
    (Stage.eq_of_rank (Nat.le_antisymm before behind))

/-- How a command can conclude: with a failure that is the first, with the help text, with what
a command that runs nothing prints, or with what a run that does not fail has written. -/
inductive Concluded (host : Host (StateM σ)) (state : σ) (args : List String) : Report → Prop
  | failing (failure : Failure) (output : String) (first : FirstFailure host state args failure)
      (silent : output = "" ∨ ∃ code bytes, Starts host state args code bytes) :
      Concluded host state args (failure.report output)
  | helping (understood : Request.ofArguments args = .ok .help)
      (clear : ∀ failure, ¬ Occurs host state args failure) :
      Concluded host state args { status := 0, stderr := usage }
  | printing {output : String} (clear : ∀ failure, ¬ Occurs host state args failure)
      (idle : ∀ code bytes, ¬ Starts host state args code bytes) :
      Concluded host state args { status := 0, stdout := output }
  | running {code : Code} {bytes : List UInt8} {outcome : Outcome} {output : String}
      (clear : ∀ failure, ¬ Occurs host state args failure)
      (starts : Starts host state args code bytes)
      (ends : Machine.Ends ⟨code, .accepting⟩ ⟨bytes⟩ outcome)
      (small : outcome.status ≤ maxExitStatus) :
      Concluded host state args { status := outcome.status, stdout := output }

/-- Where all that is loaded loads and no run ends in a fault, the engine does not fail either. -/
theorem not_occurs_of_clear (clear : Clear host state args .engine)
    (loadable : ∀ {request path text program},
      Opens host state args request path text → request.read text = .ok program → request.Loads →
      ∃ code, Code.load program = .ok code)
    (sound : ∀ {code bytes fault}, Starts host state args code bytes →
      ¬ Machine.Ends ⟨code, .accepting⟩ ⟨bytes⟩ (.failed fault)) :
    ∀ failure, ¬ Occurs host state args failure := by
  intro failure occurs
  have last := clear failure occurs
  cases occurs with
  | loading opens read loads refused =>
    obtain ⟨code, loaded⟩ := loadable opens read loads
    cases refused.symm.trans loaded
  | running starts failed => exact sound starts failed
  | _ => simp [Failure.stage, Stage.rank] at last

/-! ## From the steps to the stages -/

private theorem readProgram_eq (complaint : Interchange.Complaint) (path text : String) :
    readProgram complaint path text = (readEither text).mapError (·.report path complaint) := by
  rw [readProgram, readEither]
  split
  · cases Interchange.read text <;> rfl
  · cases Source.assemble text <;> rfl

private theorem programAt_either (held : host.textAt state path = .ok text) :
    host.programAt state path =
    (readEither text).mapError (·.report path (host.complaint text)) := by
  rw [Host.programAt_held held, readProgram_eq]

/-- Without a text in its program file, a request fails at once. -/
theorem perform_unreadable (steady : host.Steady) {error : FileError}
    (named : request.file? = some path) (unreadable : host.textAt state path = .error error) :
    (request.perform host fuel).run.run state = (.error (.unreadable path error), state) := by
  have program : host.programAt state path = .error (.unreadable path error) := by
    rw [Host.programAt, unreadable]
    rfl
  have source : host.sourceAt state path = .error (.unreadable path error) :=
    Host.sourceAt_error_iff.mpr (.inl ⟨error, unreadable, rfl⟩)
  cases request <;> cases named
  case run => rw [steady.perform_run, program]; rfl
  case parse => exact steady.perform_parse_refused state path fuel _ source
  case check => rw [steady.perform_check, program]; rfl
  case disassemble => rw [steady.perform_disassemble, program]; rfl

/-- Without a program in its text, a request fails before it does anything else. -/
theorem perform_rejected (steady : host.Steady) {error : TextError}
    (opens : Opens host state args request path text)
    (rejected : request.read text = .error error) :
    (request.perform host fuel).run.run state =
      (.error (error.report path (host.complaint text)), state) := by
  have named := opens.named
  cases request <;> cases named
  case parse =>
    obtain ⟨fault, refused, rfl⟩ := mapError_error_iff.mp rejected
    have source : host.sourceAt state path =
        .error ((TextError.source fault).report path (host.complaint text)) :=
      Host.sourceAt_error_iff.mpr
        (.inr ⟨text, opens.held, fault, Source.assembleWithStats_error_iff.mpr refused, rfl⟩)
    exact steady.perform_parse_refused state path fuel _ source
  all_goals
    have program : host.programAt state path =
        .error (error.report path (host.complaint text)) := by
      rw [programAt_either opens.held]
      exact congrArg (Except.mapError _) rejected
  case run => rw [steady.perform_run, program]; rfl
  case check => rw [steady.perform_check, program]; rfl
  case disassemble => rw [steady.perform_disassemble, program]; rfl

/-- What a command ends with is what its request is answered with. -/
theorem answered (understood : Request.ofArguments args = .ok request)
    (ended : (invoke host fuel args).run state = (some report, after)) :
    Host.answer ((request.perform host fuel).run.run state).1 = some report := by
  rw [Host.invoke_run understood] at ended
  exact congrArg Prod.fst ended

private theorem bytesAt_of_input {input : Option String} {file : String}
    (taken : host.inputAt state input = .ok bytes) (named : input = some file) :
    ∃ bytes, host.bytesAt state file = .ok bytes := by
  subst named
  exact ⟨bytes, mapError_ok_iff.mp taken⟩

/-- A request that asks for no statistics has none left to write. -/
theorem clear_engine_of_quiet (clear : Clear host state args .statistics)
    (opens : Opens host state args request path text) (quiet : request.groups = []) :
    Clear host state args .engine :=
  clear_engine clear opens fun _ _ _ => ⟨state, by rw [quiet]; rfl⟩

/-- A request without an input file has none that cannot be opened. -/
theorem clear_statistics_of_closed (opens : Opens host state args request path text)
    (read : request.read text = .ok program) (closed : request.inputFile? = none) :
    Clear host state args .statistics :=
  clear_statistics opens read fun file named => by
    rw [closed] at named
    cases named

private theorem not_starts_of_other (opens : Opens host state args request path text)
    (other : ∀ path input, request ≠ .run path input) (code : Code) (bytes : List UInt8) :
    ¬ Starts host state args code bytes := by
  rintro ⟨file, input, content, spelled, opensToo, _⟩
  obtain ⟨same, _⟩ := opens.unique opensToo
  exact other file input same

/-- A run whose program is spelled and whose input can be opened has only the engine left. -/
theorem clear_engine_of_input {input : Option String}
    (opens : Opens host state args (.run path input) path text)
    (read : readEither text = .ok program) (taken : host.inputAt state input = .ok bytes) :
    Clear host state args .engine :=
  clear_engine_of_quiet
    (clear_statistics opens read fun _ named => bytesAt_of_input taken named) opens rfl

/-- A run that ends without a fault has no failure. -/
theorem Starts.not_occurs {outcome : Outcome} (starts : Starts host state args code bytes)
    (ends : Machine.Ends ⟨code, .accepting⟩ ⟨bytes⟩ outcome)
    (sound : ∀ fault, outcome ≠ .failed fault) : ∀ failure, ¬ Occurs host state args failure := by
  have ⟨path, input, text, program, opens, read, taken, _⟩ := starts
  refine not_occurs_of_clear (clear_engine_of_input opens read taken)
    (fun opensToo readToo _ => ⟨code, starts.loads opensToo readToo⟩) fun startsToo failed => ?_
  obtain ⟨rfl, rfl⟩ := starts.unique startsToo
  exact sound _ (ends_unique ends failed)

private theorem concluded_run {input : Option String} (steady : host.Steady)
    (opens : Opens host state args (.run path input) path text)
    (read : readEither text = .ok program)
    (ended : (invoke host fuel args).run state = (some report, after)) :
    Concluded host state args report := by
  have answer := answered opens.understood ended
  rw [steady.perform_run, programAt_either opens.held, read] at answer
  cases taken : host.inputAt state input with
  | error refused =>
    rw [taken] at answer
    cases answer
    cases input with
    | none => cases taken
    | some file =>
      obtain ⟨error, closed, rfl⟩ := mapError_error_iff.mp taken
      exact .failing (.input file error) ""
        ⟨.input opens.understood rfl closed, clear_input opens read⟩ (.inl rfl)
  | ok bytes =>
    rw [taken] at answer
    change runReport fuel program ⟨bytes⟩ = some report at answer
    have clear : Clear host state args .engine := clear_engine_of_input opens read taken
    cases loaded : Code.load program with
    | error fault =>
      rw [runReport, loaded] at answer
      cases answer
      exact .failing (.engine fault) _ ⟨.loading opens read trivial loaded, clear⟩ (.inl rfl)
    | ok code =>
      have starts : Starts host state args code bytes :=
        ⟨path, input, text, program, opens, read, taken, loaded⟩
      rw [runReport_loaded loaded] at answer
      obtain ⟨outcome, finished, rfl⟩ := Option.map_eq_some_iff.mp answer
      have ends := ends_of_run finished
      cases outcome with
      | failed fault =>
        exact .failing (.engine fault) _ ⟨.running starts ends, clear⟩
          (.inr ⟨code, bytes, starts⟩)
      | completed =>
        exact .running (starts.not_occurs ends fun _ => by simp) starts ends (Nat.zero_le _)
      | exited status =>
        exact .running (starts.not_occurs ends fun _ => by simp) starts ends
          (ends_exited_iff.mp ends).1

private theorem concluded_check (steady : host.Steady)
    (opens : Opens host state args (.check path) path text)
    (read : readEither text = .ok program)
    (ended : (invoke host fuel args).run state = (some report, after)) :
    Concluded host state args report := by
  have answer := answered opens.understood ended
  rw [steady.perform_check, programAt_either opens.held, read] at answer
  change some (checkReport path program) = some report at answer
  have idle := not_starts_of_other opens (fun _ _ other => by cases other)
  have clear : Clear host state args .engine :=
    clear_engine_of_quiet (clear_statistics_of_closed opens read rfl) opens rfl
  cases loaded : Code.load program with
  | error fault =>
    rw [checkReport, loaded] at answer
    cases answer
    exact .failing (.engine fault) _ ⟨.loading opens read trivial loaded, clear⟩ (.inl rfl)
  | ok code =>
    rw [checkReport, loaded] at answer
    cases answer
    refine .printing (not_occurs_of_clear clear (fun opensToo readToo _ => ?_)
      fun starts _ => idle _ _ starts) idle
    obtain ⟨rfl, rfl, rfl⟩ := opens.unique opensToo
    cases read.symm.trans readToo
    exact ⟨code, loaded⟩

/-- A request that loads nothing has nothing left that can fail behind the statistics. -/
theorem not_occurs_of_unloaded (clear : Clear host state args .engine)
    (understood : Request.ofArguments args = .ok request) (unloaded : ¬ request.Loads)
    (idle : ∀ code bytes, ¬ Starts host state args code bytes) :
    ∀ failure, ¬ Occurs host state args failure := by
  refine not_occurs_of_clear clear (fun opens _ loads => ?_) fun starts _ => idle _ _ starts
  cases understood.symm.trans opens.understood
  exact absurd loads unloaded

private theorem concluded_disassemble (steady : host.Steady)
    (opens : Opens host state args (.disassemble path) path text)
    (read : readEither text = .ok program)
    (ended : (invoke host fuel args).run state = (some report, after)) :
    Concluded host state args report := by
  have answer := answered opens.understood ended
  rw [steady.perform_disassemble, programAt_either opens.held, read] at answer
  cases answer
  have idle := not_starts_of_other opens (fun _ _ other => by cases other)
  have clear : Clear host state args .engine :=
    clear_engine_of_quiet (clear_statistics_of_closed opens read rfl) opens rfl
  exact .printing (not_occurs_of_unloaded clear opens.understood not_false idle) idle

private theorem concluded_parse {groups : List StatsGroup} (steady : host.Steady)
    (opens : Opens host state args (.parse path groups) path text)
    (read : (Source.assemble text).mapError TextError.source = .ok program)
    (ended : (invoke host fuel args).run state = (some report, after)) :
    Concluded host state args report := by
  have answer := answered opens.understood ended
  have idle := not_starts_of_other opens (fun _ _ other => by cases other)
  have clear : Clear host state args .statistics :=
    clear_statistics_of_closed opens read rfl
  cases assembled : Source.assembleWithStats text with
  | error error =>
    rw [Source.assembleWithStats_error_iff.mp assembled] at read
    cases read
  | ok found =>
    obtain ⟨spelled, stats⟩ := found
    have source : host.sourceAt state path = .ok (spelled, stats) :=
      Host.sourceAt_ok_iff.mpr ⟨text, opens.held, assembled⟩
    rw [steady.perform_parse state path fuel groups source] at answer
    obtain ⟨left, ⟨done, _⟩ | ⟨before, group, error, stuck⟩⟩ :=
      Host.writeGroups_cases host stats groups state
    · rw [done] at answer
      cases answer
      have written : Clear host state args .engine := clear_engine clear opens fun _ _ same => by
        cases assembled.symm.trans same
        exact ⟨left, done⟩
      exact .printing (not_occurs_of_unloaded written opens.understood not_false idle) idle
    · rw [Host.writeGroups_of_stuck stuck] at answer
      cases answer
      exact .failing (.statistics group.path error) ""
        ⟨.statistics opens assembled stuck, clear⟩ (.inl rfl)

private theorem not_opens_of_help (understood : Request.ofArguments args = .ok .help) :
    ¬ Opens host state args request path text := by
  intro opens
  cases understood.symm.trans opens.understood
  cases opens.named

private theorem not_starts_of_help (understood : Request.ofArguments args = .ok .help) :
    ¬ Starts host state args code bytes := by
  rintro ⟨path, input, text, program, opens, _⟩
  exact not_opens_of_help understood opens

/-- Nothing can fail in giving help. -/
theorem not_occurs_of_help (understood : Request.ofArguments args = .ok .help) :
    ∀ failure, ¬ Occurs host state args failure := by
  intro failure occurs
  cases occurs with
  | arguments rejected => cases understood.symm.trans rejected
  | program understoodToo named _ | input understoodToo named _ =>
    cases understood.symm.trans understoodToo
    cases named
  | text opens _ | statistics opens _ _ | loading opens _ _ _ =>
    exact not_opens_of_help understood opens
  | running starts _ => exact not_starts_of_help understood starts

/-- Every command that ends concludes in one of these ways. -/
theorem concluded (steady : host.Steady)
    (ended : (invoke host fuel args).run state = (some report, after)) :
    Concluded host state args report := by
  cases understood : Request.ofArguments args with
  | error error =>
    rw [invoke, understood] at ended
    cases ended
    exact .failing (.arguments error) ""
      ⟨.arguments understood, fun _ _ => Nat.zero_le _⟩ (.inl rfl)
  | ok request =>
    cases named : request.file? with
    | none =>
      cases request with
      | help =>
        have answer := answered understood ended
        cases answer
        exact .helping understood (not_occurs_of_help understood)
      | _ => cases named
    | some path =>
      cases held : host.textAt state path with
      | error error =>
        have answer := answered understood ended
        rw [perform_unreadable steady named held] at answer
        cases answer
        exact .failing (.program path error) ""
          ⟨.program understood named held, clear_program understood⟩ (.inl rfl)
      | ok text =>
        have opens : Opens host state args request path text := ⟨understood, named, held⟩
        cases read : request.read text with
        | error error =>
          have answer := answered understood ended
          rw [perform_rejected steady opens read] at answer
          cases answer
          exact .failing (.text path (host.complaint text) error) ""
            ⟨.text opens read, clear_text opens⟩ (.inl rfl)
        | ok program =>
          cases request with
          | run _ _ => cases named; exact concluded_run steady opens read ended
          | parse _ _ => cases named; exact concluded_parse steady opens read ended
          | check _ => cases named; exact concluded_check steady opens read ended
          | disassemble _ => cases named; exact concluded_disassemble steady opens read ended
          | help => cases named

/-! ## Statuses and diagnostics -/

private theorem append_filled (text : String) {last : String} (filled : last ≠ "") :
    text ++ last ≠ "" :=
  fun empty => filled (String.append_eq_empty_iff.mp empty).2

private theorem newline_filled : "\n" ≠ "" := by decide

private theorem usage_filled : usage ≠ "" := by
  simp only [usage, usageLines, String.join, List.map, List.foldl]
  exact append_filled _ (append_filled _ newline_filled)

/-- Every failure is reported by some text. -/
theorem report_stderr (failure : Failure) (output : String) :
    (failure.report output).stderr ≠ "" := by
  cases failure with
  | arguments error =>
    cases error with
    | noCommand => exact usage_filled
    | unknownCommand word => exact append_filled _ usage_filled
    | misuse verb problem => exact append_filled _ newline_filled
  | _ => exact append_filled _ newline_filled

/-- The command that a request belongs to. -/
def Request.verb? : Request → Option Verb
  | .run .. => some .run
  | .parse .. => some .parse
  | .check _ => some .check
  | .disassemble _ => some .disassemble
  | .help => none

private theorem verb_of_asked {verb : Verb} {rest : List String}
    (asked : verb.request rest = .ok request) : request.verb? = some verb := by
  cases verb <;> rw [Verb.request] at asked
  case run => cases read : readRun none none rest <;> rw [read] at asked <;> cases asked; rfl
  case parse => cases read : readParse none [] rest <;> rw [read] at asked <;> cases asked; rfl
  all_goals cases read : readSource rest <;> rw [read] at asked <;> cases asked; rfl

private theorem verb_of_request {verb : Verb} {rest : List String}
    (understood : Request.ofArguments (verb.word :: rest) = .ok request) :
    request.verb? = some verb := by
  have named : Verb.ofWord? verb.word = some verb := by cases verb <;> rfl
  simp only [Request.ofArguments, named] at understood
  cases asked : verb.request rest with
  | error problem =>
    rw [asked] at understood
    cases understood
  | ok found =>
    rw [asked] at understood
    cases understood
    exact verb_of_asked asked

namespace Concluded

variable (ending : Concluded host state args report)

include ending

private theorem status_of_first (first : FirstFailure host state args failure) :
    report.status = failure.status := by
  cases ending with
  | failing found _ before _ => rw [Failure.report_status, before.status_unique first]
  | helping _ clear | printing clear _ | running clear _ _ _ =>
    exact absurd first.occurs (clear failure)

/-- A command fails with a status from ten upwards, or passes with one below that. -/
theorem cases_status :
    10 ≤ report.status ∧ (∃ failure, FirstFailure host state args failure) ∨
      report.status ≤ maxExitStatus ∧ ∀ failure, ¬ Occurs host state args failure := by
  cases ending with
  | failing failure _ first _ =>
    exact .inl ⟨by rw [Failure.report_status]; exact failure.status_high, failure, first⟩
  | helping _ clear | printing clear _ => exact .inr ⟨Nat.zero_le _, clear⟩
  | running clear _ _ small => exact .inr ⟨small, clear⟩

private theorem failed_iff :
    10 ≤ report.status ↔ ∃ failure, FirstFailure host state args failure := by
  rcases ending.cases_status with ⟨high, first⟩ | ⟨low, clear⟩
  · exact iff_of_true high first
  · exact iff_of_false (Nat.not_le.mpr (Nat.lt_succ_of_le low))
      fun ⟨failure, first⟩ => clear failure first.occurs

private theorem passed_iff :
    report.status ≤ maxExitStatus ↔ ∀ failure, ¬ Occurs host state args failure := by
  rcases ending.cases_status with ⟨high, failure, first⟩ | ⟨low, clear⟩
  · exact iff_of_false (Nat.not_le.mpr high) fun clear => clear failure first.occurs
  · exact iff_of_true low clear

private theorem status_iff_exits (status : Nat) (positive : 1 ≤ status)
    (small : status ≤ maxExitStatus) :
    report.status = status ↔ ∃ code bytes, Starts host state args code bytes ∧
      Machine.Exits ⟨code, .accepting⟩ ⟨bytes⟩ status := by
  constructor
  · rintro rfl
    cases ending with
    | failing failure _ _ _ =>
      have high := failure.status_high
      rw [Failure.report_status] at small
      exact absurd small (Nat.not_le.mpr high)
    | helping _ _ | printing _ _ => cases positive
    | @running code bytes outcome _ clear starts ends _ =>
      cases outcome with
      | completed => cases positive
      | exited status => exact ⟨code, bytes, starts, (ends_exited_iff.mp ends).2⟩
      | failed fault => exact absurd (Occurs.running starts ends) (clear _)
  · rintro ⟨code, bytes, starts, exits⟩
    have ends := ends_exited_iff.mpr ⟨small, exits⟩
    cases ending with
    | failing failure _ first _ =>
      exact absurd first.occurs (starts.not_occurs ends (fun _ => by simp) failure)
    | helping understood _ => exact absurd starts (not_starts_of_help understood)
    | printing _ idle => exact absurd starts (idle code bytes)
    | running _ startsToo endsToo _ =>
      obtain ⟨rfl, rfl⟩ := starts.unique startsToo
      cases ends_unique ends endsToo
      rfl

private theorem stderr_iff {verb : Verb} {rest : List String} (asked : args = verb.word :: rest) :
    report.stderr = "" ↔ report.status ≤ maxExitStatus := by
  subst asked
  cases ending with
  | failing failure output _ _ =>
    rw [Failure.report_status]
    exact iff_of_false (report_stderr failure output)
      (Nat.not_le.mpr (Nat.lt_of_succ_le failure.status_high))
  | helping understood _ => cases verb_of_request understood
  | printing _ _ => exact iff_of_true rfl (Nat.zero_le _)
  | running _ _ _ small => exact iff_of_true rfl small

private theorem stdout_of_failed {verb : Verb} {rest : List String}
    (asked : args = verb.word :: rest)
    (other : verb ≠ .run) (failed : report.status ≠ 0) : report.stdout = "" := by
  subst asked
  have idle {code : Code} {bytes : List UInt8} :
      ¬ Starts host state (verb.word :: rest) code bytes := by
    rintro ⟨path, input, text, program, opens, _⟩
    cases verb_of_request opens.understood
    exact other rfl
  cases ending with
  | failing failure output _ silent =>
    rcases silent with rfl | ⟨_, _, starts⟩
    · cases failure <;> rfl
    · exact absurd starts idle
  | helping _ _ => rfl
  | printing _ _ => exact absurd rfl failed
  | running _ starts _ _ => exact absurd starts idle

end Concluded

/-- The status of a command that ends tells which stage has failed. It is the status of the first
stage that fails: 10 for the arguments, with no file read or written then; 11 for a program that
cannot be read or an input that cannot be opened; the number of its fault for a text; 12 for
statistics that cannot be written; and the number of its kind for a fault of the engine. Any such
status is ten at least, and two stages have one in common only where either reads a file and
where either finds fault with the structure of a program. A status below ten means that no stage
has failed, and then it is the value of the EXIT that a run has executed, or zero. The four
commands write to the standard error exactly when a stage fails, and those that run nothing print
nothing then. The standard error is the one under the default filter of the log. -/
theorem status_tells_stage (steady : host.Steady)
    (ended : (invoke host fuel args).run state = (some report, after)) :
    (∀ failure, FirstFailure host state args failure → report.status = failure.status) ∧
    (10 ≤ report.status ↔ ∃ failure, FirstFailure host state args failure) ∧
    (report.status ≤ maxExitStatus ↔ ∀ failure, ¬ Occurs host state args failure) ∧
    (∀ status, 1 ≤ status → status ≤ maxExitStatus → (report.status = status ↔
      ∃ code bytes, Starts host state args code bytes ∧
        Machine.Exits ⟨code, .accepting⟩ ⟨bytes⟩ status)) ∧
    (∀ failure : Failure, failure.status ∈ failure.stage.statuses) ∧
    (∀ one other : Failure, one.status = other.status →
      one.stage = other.stage ∨
        (one.status = 11 ∧ (one.stage = .program ∧ other.stage = .input ∨
          one.stage = .input ∧ other.stage = .program)) ∨
        (one.status = 32 ∧ (one.Structural ∧ other.stage = .engine ∨
          one.stage = .engine ∧ other.Structural))) ∧
    (∀ error, Request.ofArguments args = .error error →
      ∀ {m : Type → Type} [Monad m] (elsewhere : Host m) (fuel : Nat),
        invoke elsewhere fuel args = pure (some (.usage error))) ∧
    (∀ verb rest, args = Verb.word verb :: rest →
      (report.stderr = "" ↔ report.status ≤ maxExitStatus) ∧
      (verb ≠ .run → report.status ≠ 0 → report.stdout = "")) := by
  have ending := concluded steady ended
  refine ⟨fun failure first => ending.status_of_first first, ending.failed_iff,
    ending.passed_iff, ending.status_iff_exits, Failure.status_mem,
    fun _ _ => Failure.stage_of_status, fun error rejected _ _ elsewhere fuel => ?_, ?_⟩
  · rw [invoke, rejected]
  · rintro verb rest rfl
    exact ⟨ending.stderr_iff rfl, ending.stdout_of_failed rfl⟩

end

/-- A source text that asks for a status of its own. -/
def leavingText : String := ".IPPcode24\nEXIT int@4"

/-- The program that it spells. -/
def leavingProgram : Program := ⟨[⟨1, .exit, [⟨.literal .int, "4"⟩]⟩]⟩

/-- The text in a file. -/
def leavingFiles : Workspace := ⟨[("p", Workspace.bytesOf leavingText)]⟩

theorem leaving_status_is_its_own :
    (Workspace.host []).Steady ∧
    (invoke (Workspace.host []) 1 ["run", "p"]).run leavingFiles =
      (some { status := 4 }, leavingFiles) ∧
    ∃ code bytes, Starts (Workspace.host []) leavingFiles ["run", "p"] code bytes ∧
      Machine.Exits ⟨code, .accepting⟩ ⟨bytes⟩ 4 := by
  have assembled : Source.assemble leavingText = .ok leavingProgram := by decide +kernel
  have steady := Workspace.host_steady []
  have held : (Workspace.host []).programAt leavingFiles "p" = .ok leavingProgram := by
    rw [Host.programAt_held (Host.textAt_held rfl (fromUTF8_bytesOf leavingText)),
      readProgram_assembled "p" assembled]
  have sorted : leavingProgram.sorted = leavingProgram.instructions :=
    sorted_eq_self_iff.mpr (by unfold Ordered; decide)
  have loaded : Code.load leavingProgram = .ok ⟨leavingProgram.instructions, {}⟩ := by
    rw [Code.load, sorted]
    rfl
  have asked : Request.ofArguments ["run", "p"] = .ok (.run "p" none) := by decide
  have ended : (invoke (Workspace.host []) 1 ["run", "p"]).run leavingFiles =
      (some { status := 4 }, leavingFiles) := by
    rw [Host.invoke_ends asked (steady.perform_run leavingFiles "p" 1 none), held]
    change (runReport 1 leavingProgram ⟨[]⟩, leavingFiles) = _
    rw [runReport_loaded loaded]
    rfl
  have exits := (status_tells_stage steady ended).2.2.2.1 4 (by decide) (by decide)
  exact ⟨steady, ended, exits.mp rfl⟩

end Framecode.Command
