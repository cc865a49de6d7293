import Framecode.Proofs.Command.Printed
import Mathlib.Logic.Function.Basic

/-! What a parse leaves in the files. The arguments ask for groups of statistics, each with a
file of its own, and the report of a group is all that is ever written to its file. Nothing is
written before the program is known, nothing is written behind a group that cannot be, and
nothing is printed unless all of them are written. -/
namespace Framecode.Command

/-! ## The groups on a command line -/

/-- The records that options ask for, up to the next file of statistics. -/
def recordsIn (args : List String) : List Source.Stat :=
  (args.takeWhile fun arg => (statsPath? arg).isNone).filterMap statOption?

/-- The groups that arguments ask for: every file of statistics, with the records between it and
the next one. -/
def groupsIn : List String → List StatsGroup
  | [] => []
  | arg :: rest =>
    match statsPath? arg with
    | some path => ⟨path, recordsIn rest⟩ :: groupsIn rest
    | none => groupsIn rest

/-- The groups that are found so far, the latest first, with what arguments add to them. -/
def extended (found : List StatsGroup) (args : List String) : List StatsGroup :=
  match found with
  | [] => groupsIn args
  | group :: earlier =>
    earlier.reverse ++
      { group with records := group.records ++ recordsIn args } :: groupsIn args

section

variable {arg path : String} {rest args : List String} {stat : Source.Stat}
  {source : Option String} {groups : List StatsGroup} {found : String × List StatsGroup}

theorem isOption_of_statsPath (named : statsPath? arg = some path) : isOption arg = true := by
  by_contra plain
  rw [statsPath?, after_none_of_plain (Bool.eq_false_iff.mpr plain) (by decide)] at named
  cases named

theorem isOption_of_statOption (named : statOption? arg = some stat) : isOption arg = true := by
  by_contra plain
  rw [statOption_of_plain (Bool.eq_false_iff.mpr plain)] at named
  cases named

private theorem extended_nil (groups : List StatsGroup) : extended groups [] = groups.reverse := by
  cases groups with
  | nil => rfl
  | cons group earlier => simp [extended, recordsIn, groupsIn]

/-- A file opens a group, and ends the one before it. -/
theorem extended_file (named : statsPath? arg = some path) :
    extended groups (arg :: rest) = extended (⟨path, []⟩ :: groups) rest := by
  have ends : recordsIn (arg :: rest) = [] := by simp [recordsIn, named]
  have opens : groupsIn (arg :: rest) = ⟨path, recordsIn rest⟩ :: groupsIn rest := by
    rw [groupsIn, named]
  cases groups with
  | nil => rw [extended, opens]; rfl
  | cons group earlier => simp [extended, ends, opens]

/-- A record belongs to the latest group. -/
theorem extended_record {group : StatsGroup} (unnamed : statsPath? arg = none)
    (asked : statOption? arg = some stat) :
    extended (group :: groups) (arg :: rest) =
      extended ({ group with records := group.records ++ [stat] } :: groups) rest := by
  have records : recordsIn (arg :: rest) = stat :: recordsIn rest := by
    simp [recordsIn, unnamed, asked]
  simp only [extended, records, groupsIn, unnamed, List.append_assoc, List.singleton_append]

/-- The source file belongs to no group, wherever it stands. -/
theorem extended_source (unnamed : statsPath? arg = none) (other : statOption? arg = none) :
    extended groups (arg :: rest) = extended groups rest := by
  have records : recordsIn (arg :: rest) = recordsIn rest := by
    simp [recordsIn, unnamed, other]
  cases groups <;> simp only [extended, records, groupsIn, unnamed]

/-- What one more argument of a parse can be: a new file, a record of the latest group, or the
source. -/
theorem readParse_cons_ok (read : readParse source groups (arg :: rest) = .ok found) :
    (∃ path, statsPath? arg = some path ∧ path ∉ groups.map (·.path) ∧
      readParse source (⟨path, []⟩ :: groups) rest = .ok found) ∨
    (∃ stat group earlier, statsPath? arg = none ∧ statOption? arg = some stat ∧
      groups = group :: earlier ∧
      readParse source ({ group with records := group.records ++ [stat] } :: earlier) rest =
        .ok found) ∨
    (statsPath? arg = none ∧ statOption? arg = none ∧ source = none ∧ isOption arg = false ∧
      readParse (some arg) groups rest = .ok found) := by
  rw [readParse] at read
  cases named : statsPath? arg with
  | some path =>
    simp only [named] at read
    split at read
    · cases read
    · split at read
      · cases read
      · rename_i fresh
        refine .inl ⟨path, rfl, fun member => fresh ?_, read⟩
        obtain ⟨group, held, same⟩ := List.mem_map.mp member
        exact List.any_eq_true.mpr ⟨group, held, beq_iff_eq.mpr same⟩
  | none =>
    simp only [named] at read
    cases asked : statOption? arg with
    | some stat =>
      simp only [asked] at read
      cases groups with
      | nil => cases read
      | cons group earlier => exact .inr (.inl ⟨stat, group, earlier, rfl, rfl, rfl, read⟩)
    | none =>
      simp only [asked] at read
      split at read
      · rename_i plain
        simp only [Bool.and_eq_true, Option.isNone_iff_eq_none, Bool.not_eq_true'] at plain
        exact .inr (.inr ⟨rfl, rfl, plain.1, plain.2, read⟩)
      · cases read

/-- A parse works on the one argument that is no option, and on the groups that the arguments
ask for. No file is named twice. -/
theorem readParse_ok (read : readParse source groups args = .ok found) :
    found.2 = extended groups args ∧
      ((groups.map (·.path)).Nodup → (found.2.map (·.path)).Nodup) ∧
      source.toList ++ args.filter (fun arg => !isOption arg) = [found.1] := by
  induction args generalizing source groups with
  | nil =>
    cases source with
    | none => cases read
    | some path =>
      cases read
      refine ⟨(extended_nil groups).symm, fun distinct => ?_, rfl⟩
      rw [List.map_reverse]
      exact List.nodup_reverse.mpr distinct
  | cons arg rest ih =>
    rcases readParse_cons_ok read with ⟨path, named, fresh, later⟩ |
      ⟨stat, group, earlier, unnamed, asked, rfl, later⟩ | ⟨unnamed, other, rfl, plain, later⟩
    · obtain ⟨same, distinct, alone⟩ := ih later
      refine ⟨same.trans (extended_file named).symm,
        fun kept => distinct (List.nodup_cons.mpr ⟨fresh, kept⟩), ?_⟩
      rw [List.filter_cons_of_neg (by simp [isOption_of_statsPath named]), alone]
    · obtain ⟨same, distinct, alone⟩ := ih later
      refine ⟨same.trans (extended_record unnamed asked).symm, distinct, ?_⟩
      rw [List.filter_cons_of_neg (by simp [isOption_of_statOption asked]), alone]
    · obtain ⟨same, distinct, alone⟩ := ih later
      refine ⟨same.trans (extended_source unnamed other).symm, distinct, ?_⟩
      rw [List.filter_cons_of_pos (by simp [plain])]
      exact alone

theorem readParse_groups (read : readParse none [] args = .ok (path, groups)) :
    groups = groupsIn args ∧ (groups.map (·.path)).Nodup ∧
      args.filter (fun arg => !isOption arg) = [path] := by
  obtain ⟨same, distinct, alone⟩ := readParse_ok read
  exact ⟨same, distinct List.nodup_nil, alone⟩

end

/-! ## Files with names of their own -/

section

variable {σ : Type}

/-- A host that keeps its files by path. Reading gives what is held; a write replaces the whole
content of the file that it names and of no other, or fails and leaves all of them as they
are. -/
structure Host.Keeps (host : Host (StateM σ)) (content : σ → String → Option (List UInt8)) :
    Prop extends host.Steady where
  read {path : String} {state : σ} {bytes : List UInt8}
    (done : ((host.readFile path).run state).1 = .ok bytes) : content state path = some bytes
  written {path text : String} {state after : σ}
    (done : (host.writeFile path text).run state = (.ok (), after)) :
    content after path = some (Workspace.bytesOf text) ∧
      ∀ other, other ≠ path → content after other = content state other
  refused {path text : String} {state after : σ} {error : FileError}
    (done : (host.writeFile path text).run state = (.error error, after)) :
    content after = content state

/-- The files of some groups hold their reports, and every other file is as before. -/
structure Reported (content : σ → String → Option (List UInt8)) (stats : Source.Stats)
    (groups : List StatsGroup) (before after : σ) : Prop where
  held : ∀ group ∈ groups,
    content after group.path = some (Workspace.bytesOf (stats.report group.records))
  kept : ∀ path, path ∉ groups.map (·.path) → content after path = content before path

/-- The one argument that is no option names a file that spells a program, with statistics. -/
def Spelled (content : σ → String → Option (List UInt8)) (state : σ) (args : List String)
    (program : Program) (stats : Source.Stats) : Prop :=
  ∃ source text, args.filter (fun arg => !isOption arg) = [source] ∧
    content state source = some (Workspace.bytesOf text) ∧
    Source.assembleWithStats text = .ok (program, stats)

variable {host : Host (StateM σ)} {content : σ → String → Option (List UInt8)}
  {stats : Source.Stats} {groups : List StatsGroup} {state after : σ} {path : String}
  {args : List String} {program : Program} {report : Report}

/-- Groups with a file each leave their reports behind, as no later one writes to an earlier
one's file. -/
theorem reported_of_written (keeps : host.Keeps content)
    (written : host.Written stats groups state after) (distinct : (groups.map (·.path)).Nodup) :
    Reported content stats groups state after := by
  induction written with
  | nil state => exact ⟨fun _ member => absurd member List.not_mem_nil, fun _ _ => rfl⟩
  | cons here later ih =>
    obtain ⟨fresh, others⟩ := List.nodup_cons.mp distinct
    obtain ⟨now, elsewhere⟩ := keeps.written here
    obtain ⟨held, kept⟩ := ih others
    constructor
    · intro group member
      rcases List.mem_cons.mp member with rfl | behind
      · rw [kept _ fresh, now]
      · exact held group behind
    · intro path apart
      obtain ⟨other, outside⟩ := not_or.mp (fun either => apart (List.mem_cons.mpr either))
      rw [kept path outside, elsewhere path other]

private theorem held_of_textAt {text : String} (keeps : host.Keeps content)
    (read : host.textAt state path = .ok text) :
    content state path = some (Workspace.bytesOf text) := by
  rw [Host.textAt] at read
  cases done : ((host.readFile path).run state).1 with
  | error error =>
    rw [done] at read
    cases read
  | ok bytes =>
    simp only [done] at read
    cases decoded : String.fromUTF8? ⟨bytes.toArray⟩ with
    | none =>
      rw [decoded] at read
      cases read
    | some found =>
      rw [decoded] at read
      cases read
      rw [keeps.read done, bytesOf_of_fromUTF8 decoded]

/-- A program in a source file is spelled by the text that the file holds. -/
theorem spelled_of_source (keeps : host.Keeps content)
    (alone : args.filter (fun arg => !isOption arg) = [path])
    (found : host.sourceAt state path = .ok (program, stats)) :
    Spelled content state args program stats := by
  obtain ⟨text, read, assembled⟩ := Host.sourceAt_ok_iff.mp found
  exact ⟨path, text, alone, held_of_textAt keeps read, assembled⟩

/-- Without a program in the source file a parse fails for that, and prints nothing. -/
theorem refused_of_source (refused : host.sourceAt state path = .error report) :
    report.status ∈ [11, 21, 22, 23] ∧ report.stdout = "" := by
  rcases Host.sourceAt_error_iff.mp refused with ⟨error, _, rfl⟩ | ⟨text, _, error, _, rfl⟩
  · exact ⟨.head _, rfl⟩
  · refine ⟨?_, rfl⟩
    simp only [Report.rejected]
    cases error.problem <;> simp [Source.Problem.exitCode]

/-! ## What a parse does -/

private theorem arguments_of_parse_line (args : List String) :
    Request.ofArguments ("parse" :: args) =
    match readParse none [] args with
    | .ok found => .ok (.parse found.1 found.2)
    | .error problem => .error (.misuse .parse problem) := by
  have verb : Verb.ofWord? "parse" = some .parse := rfl
  simp only [Request.ofArguments, verb, Verb.request]
  cases readParse none [] args <;> rfl

/-- How a parse can end: before it has written anything, at a group that cannot be written, or
with all groups written and the document of the program printed. -/
inductive ParseEnds (host : Host (StateM σ)) (content : σ → String → Option (List UInt8))
    (state : σ) (args : List String) : Report → σ → Prop
  | before {report : Report} (failing : report.status ∈ [10, 11, 21, 22, 23])
      (silent : report.stdout = "") : ParseEnds host content state args report state
  | stuck {program : Program} {stats : Source.Stats} {done : List StatsGroup}
      {group : StatsGroup} {error : FileError} {after : σ}
      (distinct : ((groupsIn args).map (·.path)).Nodup)
      (spelled : Spelled content state args program stats)
      (stops : host.Stuck stats (groupsIn args) done group error state after) :
      ParseEnds host content state args (.unwritable group.path error) after
  | done {program : Program} {stats : Source.Stats} {after : σ}
      (distinct : ((groupsIn args).map (·.path)).Nodup)
      (spelled : Spelled content state args program stats)
      (written : host.Written stats (groupsIn args) state after) :
      ParseEnds host content state args
        { status := 0, stdout := Interchange.write program } after

private theorem parse_ends {fuel : Nat} (keeps : host.Keeps content)
    (ended : (invoke host fuel ("parse" :: args)).run state = (some report, after)) :
    ParseEnds host content state args report after := by
  have line := arguments_of_parse_line args
  cases read : readParse none [] args with
  | error problem =>
    rw [read] at line
    rw [invoke, line] at ended
    cases ended
    exact .before (.head _) rfl
  | ok found =>
    obtain ⟨source, groups⟩ := found
    obtain ⟨rfl, distinct, alone⟩ := readParse_groups read
    rw [read] at line
    rw [Host.invoke_run line] at ended
    cases spelled : host.sourceAt state source with
    | error refused =>
      rw [keeps.perform_parse_refused state source fuel _ spelled] at ended
      cases ended
      obtain ⟨failing, silent⟩ := refused_of_source spelled
      exact .before (.tail _ failing) silent
    | ok result =>
      obtain ⟨program, stats⟩ := result
      rw [keeps.perform_parse state source fuel _ spelled] at ended
      obtain ⟨left, ⟨done, written⟩ | ⟨before, group, error, stops⟩⟩ :=
        Host.writeGroups_cases host stats (groupsIn args) state
      · rw [done] at ended
        cases ended
        exact .done distinct (spelled_of_source keeps alone spelled) written
      · rw [Host.writeGroups_of_stuck stops] at ended
        cases ended
        exact .stuck distinct (spelled_of_source keeps alone spelled) stops

/-- A parse changes the files that it is asked to, one after another, and no others. When it fails
over its arguments or over its source file it changes none. When a group cannot be written, the
files of the groups before it hold their reports, and no other file is changed. Otherwise the file
of every group holds the report of the records that are asked for between it and the next one, no
other file is changed, and the document of the program is printed. The text is the one that the
source file held at first, even where that file is one of those written. Whenever it fails, a
parse prints nothing. -/
theorem parse_writes_requested_files {fuel : Nat} (keeps : host.Keeps content)
    (ended : (invoke host fuel ("parse" :: args)).run state = (some report, after)) :
    report.status ∈ [0, 10, 11, 12, 21, 22, 23] ∧
    (report.status ∈ [10, 11, 21, 22, 23] → content after = content state ∧ report.stdout = "") ∧
    (report.status = 12 → ∃ program stats done group rest error,
      Spelled content state args program stats ∧ groupsIn args = done ++ group :: rest ∧
      report = .unwritable group.path error ∧
      (∃ between, content between = content after ∧
        (host.writeFile group.path (stats.report group.records)).run between =
          (.error error, after)) ∧
      Reported content stats done state after ∧ report.stdout = "") ∧
    (report.status = 0 → ∃ program stats, Spelled content state args program stats ∧
      Reported content stats (groupsIn args) state after ∧
      report.stdout = Interchange.write program) := by
  cases parse_ends keeps ended with
  | before failing silent =>
    have other {status : Nat} (failed : report.status = status)
        (apart : status ∉ [10, 11, 21, 22, 23]) : False := apart (failed ▸ failing)
    refine ⟨?_, fun _ => ⟨rfl, silent⟩, fun failed => (other failed (by decide)).elim,
      fun passed => (other passed (by decide)).elim⟩
    simp only [List.mem_cons, List.not_mem_nil, or_false] at failing ⊢
    omega
  | @stuck program stats done group error _ distinct spelled stops =>
    obtain ⟨rest, between, split, written, fails⟩ := stops
    have unchanged := keeps.refused fails
    rw [split, List.map_append] at distinct
    obtain ⟨held, kept⟩ := reported_of_written keeps written distinct.of_append_left
    have reported : Reported content stats done state after :=
      ⟨unchanged ▸ held, unchanged ▸ kept⟩
    refine ⟨by simp [Report.unwritable], fun before => ?_, fun _ => ?_, fun passed => ?_⟩
    · simp [Report.unwritable] at before
    · exact ⟨program, stats, done, group, rest, error, spelled, split, rfl,
        ⟨between, unchanged.symm, fails⟩, reported, rfl⟩
    · cases passed
  | @done program stats _ distinct spelled written =>
    have reported := reported_of_written keeps written distinct
    refine ⟨.head _, fun before => ?_, fun failed => ?_, fun _ => ?_⟩
    · simp at before
    · cases failed
    · exact ⟨program, stats, spelled, reported, rfl⟩

end

/-- A host of files by name, some of which cannot be written. -/
def shelf (locked : List String) : Host (StateM (String → Option (List UInt8))) where
  readFile path files := ((files path).elim (.error .notFound) .ok, files)
  writeFile path text files :=
    if path ∈ locked then (.error (.other "Permission denied (os error 13)"), files)
    else (.ok (), Function.update files path (some (Workspace.bytesOf text)))
  readInput files := ([], files)
  complaint _ := {}

private theorem shelf_keeps (locked : List String) : (shelf locked).Keeps id where
  file _ _ := rfl
  input _ := rfl
  read {path files bytes} done := by
    change (files path).elim (.error FileError.notFound) .ok = Except.ok bytes at done
    cases held : files path with
    | none =>
      rw [held] at done
      cases done
    | some found =>
      rw [held] at done
      cases done
      exact held
  written {path text files after} done := by
    change (if path ∈ locked then (.error (.other _), files) else
      (.ok (), Function.update files path _)) =
        ((.ok (), after) : Except FileError Unit × _) at done
    split at done <;> cases done
    exact ⟨Function.update_self .., fun other apart => Function.update_of_ne apart ..⟩
  refused {path text files after error} done := by
    change (if path ∈ locked then (.error (.other _), files) else
      (.ok (), Function.update files path _)) =
        ((.error error, after) : Except FileError Unit × _) at done
    split at done <;> cases done
    rfl

/-- A source text with one instruction. -/
def loneText : String := ".IPPcode24\nBREAK"

/-- The program that it spells. -/
def loneProgram : Program := ⟨[⟨1, .breakpoint, []⟩]⟩

/-- The text in a file, and no other file. -/
def loneFile : String → Option (List UInt8) :=
  Function.update (fun _ => none) "p" (some (Workspace.bytesOf loneText))

/-- Its statistics. -/
def loneStats : Source.Stats := .ofProgram loneProgram 0

/-- Arguments that ask for statistics in the source file and in another one. -/
def overLine : List String := ["--stats=p", "--loc", "p", "--eol", "--stats=q", "--jumps"]

theorem source_overwritten_by_its_report :
    (shelf ["q"]).Keeps id ∧ ∃ report after,
      (invoke (shelf ["q"]) 0 ("parse" :: overLine)).run loneFile = (some report, after) ∧
      report.status = 12 ∧ after "p" = some (Workspace.bytesOf "1\n\n") ∧ after "q" = none ∧
      ∃ program stats done group rest error,
        Spelled id loneFile overLine program stats ∧ groupsIn overLine = done ++ group :: rest ∧
        report = .unwritable group.path error ∧ Reported id stats done loneFile after := by
  have keeps := shelf_keeps ["q"]
  have asked : Request.ofArguments ("parse" :: overLine) =
      .ok (.parse "p" [⟨"p", [.loc, .eol]⟩, ⟨"q", [.jumps]⟩]) := by decide
  have assembled : Source.assemble loneText = .ok loneProgram := by decide +kernel
  have uncommented : Source.commentedLines (Text.lines loneText.toList) = 0 := by decide +kernel
  have spelled : Source.assembleWithStats loneText = .ok (loneProgram, loneStats) :=
    Source.assembleWithStats_ok_iff.mpr ⟨assembled, by rw [uncommented]; rfl⟩
  have read : (shelf ["q"]).textAt loneFile "p" = .ok loneText := by
    change (match String.fromUTF8? ⟨(Workspace.bytesOf loneText).toArray⟩ with
      | some text => Except.ok text
      | none => Except.error FileError.notText) = _
    rw [fromUTF8_bytesOf]
  have source : (shelf ["q"]).sourceAt loneFile "p" = .ok (loneProgram, loneStats) :=
    Host.sourceAt_ok_iff.mpr ⟨loneText, read, spelled⟩
  have ended : (invoke (shelf ["q"]) 0 ("parse" :: overLine)).run loneFile =
      (some (.unwritable "q" (.other "Permission denied (os error 13)")),
        Function.update loneFile "p"
          (some (Workspace.bytesOf (loneStats.report [.loc, .eol])))) := by
    rw [Host.invoke_run asked, keeps.perform_parse loneFile "p" 0 _ source]
    rfl
  have text : loneStats.report [.loc, .eol] = "1\n\n" := by decide +kernel
  obtain ⟨program, stats, done, group, rest, error, spells, split, same, _, reported, _⟩ :=
    (parse_writes_requested_files keeps ended).2.2.1 rfl
  refine ⟨keeps, _, _, ended, rfl, ?_, rfl, program, stats, done, group, rest, error, spells,
    split, same, reported⟩
  rw [Function.update_self, text]

end Framecode.Command
