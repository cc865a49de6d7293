import Framecode.Proofs.Command.Reports

/-! How the arguments of a parse are grouped. The arguments are gone through once, with the source
and the groups found so far; what is asked of them is said here without that pass. Every option
stays where it was: the groups, written out one after another, are the arguments without the
source, so the place of the source among them makes no difference. -/
namespace Framecode.Command

/-! ## Options and what they are spelled as -/

/-- The option that opens a group of statistics for a file. -/
def fileOption (path : String) : String := "--stats=" ++ path

/-- The option that asks for a record. -/
def recordOption : Source.Stat → String
  | .loc => "--loc"
  | .comments => "--comments"
  | .labels => "--labels"
  | .jumps => "--jumps"
  | .fwJumps => "--fwjumps"
  | .backJumps => "--backjumps"
  | .badJumps => "--badjumps"
  | .frequent => "--frequent"
  | .print text => "--print=" ++ text
  | .eol => "--eol"

/-- The options that ask for a group of statistics. -/
def StatsGroup.options (group : StatsGroup) : List String :=
  fileOption group.path :: group.records.map recordOption

/-- An argument starts with two dashes. -/
def Dashed (arg : String) : Prop := ∃ rest, arg = "--" ++ rest

/-- An argument is one of the options of a parse. -/
def Known (arg : String) : Prop :=
  (∃ path, arg = fileOption path) ∨ ∃ stat, arg = recordOption stat

/-- An argument is neither an option of a parse nor starts like one. -/
def Positional (arg : String) : Prop := ¬Known arg ∧ ¬Dashed arg

/-- Every record is asked for after some file. -/
def Led (args : List String) : Prop :=
  ∀ before stat after, args = before ++ recordOption stat :: after →
    ∃ path, fileOption path ∈ before

/-- What the arguments of a parse have to be. -/
structure Grouped (args : List String) : Prop where
  /-- Exactly one argument is no option. -/
  single : ∃ before source after, args = before ++ source :: after ∧ Positional source ∧
    ∀ arg ∈ before ++ after, ¬Positional arg
  /-- No option is unknown. -/
  known : ∀ arg ∈ args, Dashed arg → Known arg
  /-- Every file has a name. -/
  named : fileOption "" ∉ args
  /-- No file is named twice. -/
  distinct : ∀ path, args.count (fileOption path) ≤ 1
  led : Led args

section

variable {arg path : String} {stat : Source.Stat} {source : Option String}
  {groups : List StatsGroup} {rest args : List String} {found : String × List StatsGroup}

/-- An argument starts with a word exactly when it is the word and something behind it. -/
theorem after_some_iff {word : String} {following : List Char} :
    Text.after? word.toList arg.toList = some following ↔
      arg = word ++ String.ofList following := by
  rw [Text.after?_eq_some_iff, ← String.toList_inj, String.toList_append, String.toList_ofList]

private theorem statsPath_some_iff : statsPath? arg = some path ↔ arg = fileOption path := by
  rw [statsPath?, Option.map_eq_some_iff]
  simp only [after_some_iff, fileOption]
  constructor
  · rintro ⟨following, rfl, rfl⟩
    rfl
  · rintro rfl
    exact ⟨path.toList, by rw [String.ofList_toList], String.ofList_toList⟩

private theorem isOption_iff : isOption arg = true ↔ Dashed arg := by
  rw [isOption, Option.isSome_iff_exists]
  constructor
  · rintro ⟨following, found⟩
    exact ⟨_, (@after_some_iff arg "--" following).mp found⟩
  · rintro ⟨rest, rfl⟩
    exact ⟨rest.toList, (@after_some_iff _ "--" _).mpr (by rw [String.ofList_toList])⟩

private theorem statOption_some_iff : statOption? arg = some stat ↔ arg = recordOption stat := by
  constructor
  · intro asked
    unfold statOption? at asked
    split at asked
    case h_10 =>
      obtain ⟨following, spelled, rfl⟩ := Option.map_eq_some_iff.mp asked
      exact after_some_iff.mp spelled
    all_goals
      cases asked
      rfl
  · rintro rfl
    cases stat with
    | print text =>
      have found : Text.after? "--print=".toList ("--print=" ++ text).toList = some text.toList :=
        after_some_iff.mpr (by rw [String.ofList_toList])
      unfold statOption?
      split
      case h_10 =>
        rw [recordOption, found, Option.map_some, String.ofList_toList]
      all_goals
        rename_i same
        rw [recordOption] at same
        rw [same] at found
        cases found
    | _ => rfl

private theorem statsPath_record (stat : Source.Stat) : statsPath? (recordOption stat) = none := by
  cases stat with
  | print text => simp [statsPath?, recordOption, Text.after?]
  | _ => rfl

private theorem positional_iff : Positional arg ↔ isOption arg = false := by
  rw [← Bool.not_eq_true, isOption_iff]
  refine ⟨And.right, fun plain => ⟨?_, plain⟩⟩
  rintro (⟨path, named⟩ | ⟨stat, asked⟩)
  · exact plain (isOption_iff.mp (isOption_of_statsPath (statsPath_some_iff.mpr named)))
  · exact plain (isOption_iff.mp (isOption_of_statOption (statOption_some_iff.mpr asked)))

/-- What an argument can be: the name of a file, a request for a record, a source, or an option
that is not known. -/
theorem argument_cases (arg : String) :
    (∃ path, arg = fileOption path) ∨ (∃ stat, arg = recordOption stat) ∨ Positional arg ∨
      (Dashed arg ∧ ¬Known arg) := by
  by_cases known : Known arg
  · exact known.elim .inl fun asked => .inr (.inl asked)
  · by_cases dashed : Dashed arg
    · exact .inr (.inr (.inr ⟨dashed, known⟩))
    · exact .inr (.inr (.inl ⟨known, dashed⟩))

/-! ## One argument -/

private theorem readParse_file : readParse source groups (fileOption path :: rest) =
    if path = "" then .error .statsMissing
    else if path ∈ groups.map (·.path) then .error (.statsTwice path)
    else readParse source (⟨path, []⟩ :: groups) rest := by
  rw [readParse, statsPath_some_iff.mpr rfl]
  simp only [String.isEmpty_iff, List.any_eq_true, beq_iff_eq, List.mem_map]

private theorem readParse_alone : readParse source [] (recordOption stat :: rest) =
    .error (.statAlone (recordOption stat)) := by
  rw [readParse, statsPath_record, statOption_some_iff.mpr rfl]

private theorem readParse_record {group : StatsGroup} :
    readParse source (group :: groups) (recordOption stat :: rest) =
      readParse source ({ group with records := group.records ++ [stat] } :: groups) rest := by
  rw [readParse, statsPath_record, statOption_some_iff.mpr rfl]

private theorem unread_of_unknown (unknown : ¬Known arg) :
    statsPath? arg = none ∧ statOption? arg = none := by
  constructor
  · exact Option.eq_none_iff_forall_ne_some.mpr fun path named =>
      unknown (.inl ⟨path, statsPath_some_iff.mp named⟩)
  · exact Option.eq_none_iff_forall_ne_some.mpr fun stat asked =>
      unknown (.inr ⟨stat, statOption_some_iff.mp asked⟩)

private theorem readParse_positional (plain : Positional arg) :
    readParse source groups (arg :: rest) =
      if source.isNone then readParse (some arg) groups rest else .error (.unexpected arg) := by
  obtain ⟨unnamed, unasked⟩ := unread_of_unknown plain.1
  simp only [readParse, unnamed, unasked, positional_iff.mp plain, Bool.not_false, Bool.and_true]

private theorem readParse_unknown (dashed : Dashed arg) (unknown : ¬Known arg) :
    readParse source groups (arg :: rest) = .error (.unexpected arg) := by
  obtain ⟨unnamed, unasked⟩ := unread_of_unknown unknown
  simp only [readParse, unnamed, unasked, isOption_iff.mpr dashed, Bool.not_true, Bool.and_false,
    Bool.false_eq_true, if_false]

/-! ## All arguments -/

private theorem fileOption_ne_recordOption (path : String) (stat : Source.Stat) :
    fileOption path ≠ recordOption stat := by
  intro same
  have named : statsPath? (recordOption stat) = some path := statsPath_some_iff.mpr same.symm
  rw [statsPath_record] at named
  cases named

private theorem led_file : Led (fileOption path :: rest) := by
  intro before stat after split
  cases before with
  | nil => exact absurd (List.cons.inj split).1 (fileOption_ne_recordOption path stat)
  | cons first before =>
    obtain ⟨rfl, -⟩ := List.cons.inj split
    exact ⟨path, List.mem_cons_self⟩

private theorem not_led_record : ¬Led (recordOption stat :: rest) := by
  intro led
  obtain ⟨path, held⟩ := led [] stat rest rfl
  cases held

private theorem led_positional (plain : Positional arg) : Led (arg :: rest) ↔ Led rest := by
  constructor
  · intro led before stat after split
    obtain ⟨path, held⟩ := led (arg :: before) stat after (by rw [split, List.cons_append])
    rcases List.mem_cons.mp held with rfl | behind
    · exact absurd (.inl ⟨path, rfl⟩) plain.1
    · exact ⟨path, behind⟩
  · intro led before stat after split
    cases before with
    | nil =>
      obtain ⟨rfl, -⟩ := List.cons.inj split
      exact absurd (.inr ⟨stat, rfl⟩) plain.1
    | cons first before =>
      obtain ⟨path, held⟩ := led before stat after (List.cons.inj split).2
      exact ⟨path, List.mem_cons_of_mem first held⟩

/-- An argument is no unknown option, and no option for a file without a name. -/
def Allowed (arg : String) : Prop := (Dashed arg → Known arg) ∧ fileOption "" ≠ arg

private theorem allowed_file : Allowed (fileOption path) ↔ path ≠ "" := by
  have names : statsPath? (fileOption path) = some path := statsPath_some_iff.mpr rfl
  constructor
  · rintro ⟨-, nonempty⟩ rfl
    exact nonempty rfl
  · intro nonempty
    refine ⟨fun _ => .inl ⟨path, rfl⟩, fun same => nonempty ?_⟩
    rw [statsPath_some_iff.mpr same.symm] at names
    exact (Option.some.inj names).symm

private theorem allowed_record (stat : Source.Stat) : Allowed (recordOption stat) :=
  ⟨fun _ => .inr ⟨stat, rfl⟩, fileOption_ne_recordOption "" stat⟩

private theorem allowed_positional (plain : Positional arg) : Allowed arg := by
  refine ⟨fun dashed => absurd dashed plain.2, ?_⟩
  rintro rfl
  exact plain.1 (.inl ⟨"", rfl⟩)

/-- What arguments have to be when a source and some groups are found before them. -/
@[mk_iff]
structure Continues (source : Option String) (groups : List StatsGroup) (args : List String) :
    Prop where
  single : ∃ path, source.toList ++ args.filter (fun arg => !isOption arg) = [path]
  allowed : ∀ arg ∈ args, Allowed arg
  distinct : (groups.map (·.path) ++ args.filterMap statsPath?).Nodup
  led : groups = [] → Led args

private theorem continues_file : Continues source groups (fileOption path :: rest) ↔
    path ≠ "" ∧ Continues source (⟨path, []⟩ :: groups) rest := by
  have names : statsPath? (fileOption path) = some path := statsPath_some_iff.mpr rfl
  have plain : (fileOption path :: rest).filter (fun arg => !isOption arg) =
      rest.filter (fun arg => !isOption arg) :=
    List.filter_cons_of_neg (by simp [isOption_of_statsPath names])
  rw [continues_iff, continues_iff, plain, List.forall_mem_cons, allowed_file,
    List.filterMap_cons_some names, List.nodup_middle, List.map_cons, List.cons_append]
  simp only [led_file, implies_true, reduceCtorEq, false_implies, and_true]
  tauto

private theorem continues_record {group : StatsGroup} :
    Continues source (group :: groups) (recordOption stat :: rest) ↔
      Continues source ({ group with records := group.records ++ [stat] } :: groups) rest := by
  have asks : statOption? (recordOption stat) = some stat := statOption_some_iff.mpr rfl
  have plain : (recordOption stat :: rest).filter (fun arg => !isOption arg) =
      rest.filter (fun arg => !isOption arg) :=
    List.filter_cons_of_neg (by simp [isOption_of_statOption asks])
  rw [continues_iff, continues_iff, plain, List.forall_mem_cons,
    List.filterMap_cons_none (statsPath_record stat)]
  simp only [allowed_record, List.map_cons, reduceCtorEq, false_implies, true_and]

private theorem continues_positional (plain : Positional arg) :
    Continues source groups (arg :: rest) ↔ source = none ∧ Continues (some arg) groups rest := by
  have kept : (arg :: rest).filter (fun arg => !isOption arg) =
      arg :: rest.filter (fun arg => !isOption arg) :=
    List.filter_cons_of_pos (by simp [positional_iff.mp plain])
  rw [continues_iff, continues_iff, kept, List.forall_mem_cons, led_positional plain,
    List.filterMap_cons_none (unread_of_unknown plain.1).1]
  cases source with
  | none => simp [allowed_positional plain]
  | some first => simp

private theorem not_continues_unknown (dashed : Dashed arg) (unknown : ¬Known arg) :
    ¬Continues source groups (arg :: rest) := fun continues =>
  unknown ((continues.allowed arg List.mem_cons_self).1 dashed)

/-- A pass that is at some source and groups gives a result on exactly the arguments that go on
from there. -/
theorem accepted_iff (distinct : (groups.map (·.path)).Nodup) :
    (∃ found, readParse source groups args = .ok found) ↔ Continues source groups args := by
  induction args generalizing source groups with
  | nil =>
    cases source with
    | none => simp [readParse, continues_iff]
    | some path => simp [readParse, continues_iff, distinct, Led]
  | cons arg rest ih =>
    rcases argument_cases arg with ⟨path, rfl⟩ | ⟨stat, rfl⟩ | plain | ⟨dashed, unknown⟩
    · rw [readParse_file, continues_file]
      by_cases empty : path = ""
      · simp [empty]
      rw [if_neg empty]
      -- The groups found so far have all the files before this one, so a second mention shows.
      by_cases twice : path ∈ groups.map (·.path)
      · rw [if_pos twice]
        constructor
        · rintro ⟨found, read⟩
          cases read
        · rintro ⟨-, continues⟩
          exact absurd (List.mem_append_left _ twice) (List.nodup_cons.mp continues.distinct).1
      · have fresh : ((⟨path, []⟩ :: groups : List StatsGroup).map (·.path)).Nodup :=
          List.nodup_cons.mpr ⟨twice, distinct⟩
        rw [if_neg twice, ih fresh, and_iff_right empty]
    · cases groups with
      | nil =>
        -- Without a group there was no file yet, and nothing later can make up for it.
        simp [readParse_alone, continues_iff, not_led_record]
      | cons group groups =>
        rw [readParse_record, continues_record]
        exact ih distinct
    · rw [readParse_positional plain, continues_positional plain]
      cases source with
      | none => simp [ih distinct]
      | some first => simp
    · simp [readParse_unknown dashed unknown, not_continues_unknown dashed unknown]

private theorem filter_eq_single_iff :
    args.filter (fun arg => !isOption arg) = [path] ↔
      ∃ before after, args = before ++ path :: after ∧ Positional path ∧
        ∀ arg ∈ before ++ after, ¬Positional arg := by
  simp only [List.filter_eq_cons_iff, List.filter_eq_nil_iff, positional_iff, Bool.not_eq_true',
    List.forall_mem_append]
  constructor
  · rintro ⟨before, after, split, first, plain, later⟩
    exact ⟨before, after, split, plain, first, later⟩
  · rintro ⟨before, after, split, plain, first, later⟩
    exact ⟨before, after, split, first, plain, later⟩

private theorem nodup_files_iff :
    (args.filterMap statsPath?).Nodup ↔ ∀ path, args.count (fileOption path) ≤ 1 := by
  rw [List.nodup_iff_count_le_one]
  refine forall_congr' fun path => ?_
  rw [List.count_filterMap, List.count]
  have same : args.countP (fun arg => statsPath? arg == some path) =
      args.countP (· == fileOption path) :=
    List.countP_congr fun arg _ => by rw [beq_iff_eq, beq_iff_eq, statsPath_some_iff]
  rw [same]

private theorem continues_iff_grouped : Continues none [] args ↔ Grouped args := by
  constructor
  · rintro ⟨⟨path, single⟩, allowed, distinct, led⟩
    obtain ⟨before, after, split⟩ := filter_eq_single_iff.mp single
    exact ⟨⟨before, path, after, split⟩, fun arg held => (allowed arg held).1,
      fun held => (allowed _ held).2 rfl, nodup_files_iff.mp distinct, led rfl⟩
  · rintro ⟨⟨before, path, after, split⟩, known, named, distinct, led⟩
    refine ⟨⟨path, filter_eq_single_iff.mpr ⟨before, after, split⟩⟩,
      fun arg held => ⟨known arg held, ?_⟩, nodup_files_iff.mpr distinct, fun _ => led⟩
    rintro rfl
    exact named held

/-! ## What is written back -/

/-- The options of the groups that a pass ends with are those of the groups it has, and then the
options among its arguments. -/
theorem options_of_read (read : readParse source groups args = .ok found) :
    found.2.flatMap StatsGroup.options =
      groups.reverse.flatMap StatsGroup.options ++ args.filter isOption := by
  induction args generalizing source groups with
  | nil =>
    cases source with
    | none => cases read
    | some path =>
      cases read
      rw [List.filter_nil, List.append_nil]
  | cons arg rest ih =>
    rcases readParse_cons_ok read with ⟨path, named, -, later⟩ |
      ⟨stat, group, earlier, -, asked, rfl, later⟩ | ⟨-, -, -, plain, later⟩
    · rw [ih later, List.filter_cons_of_pos (isOption_of_statsPath named),
        statsPath_some_iff.mp named]
      simp [StatsGroup.options]
    · rw [ih later, List.filter_cons_of_pos (isOption_of_statOption asked),
        statOption_some_iff.mp asked]
      simp [StatsGroup.options]
    · rw [ih later, List.filter_cons_of_neg (by simp [plain])]

private theorem filter_options {before after : List String} (plain : Positional path)
    (options : ∀ arg ∈ before ++ after, ¬Positional arg) :
    (before ++ path :: after).filter isOption = before ++ after := by
  have kept : ∀ arg ∈ before ++ after, isOption arg = true := fun arg held => by
    simpa [positional_iff] using options arg held
  rw [List.filter_append, List.filter_cons_of_neg (by simp [positional_iff.mp plain]),
    ← List.filter_append, List.filter_eq_self.mpr kept]

/-- A source behind other options is as good as one that is found before them: what is done with
an option does not depend on the source, not even how it fails. -/
theorem readParse_moved {before after : List String} (plain : Positional path)
    (options : ∀ arg ∈ before, ¬Positional arg) :
    readParse none groups (before ++ path :: after) =
      readParse (some path) groups (before ++ after) := by
  induction before generalizing groups with
  | nil => exact readParse_positional plain
  | cons arg before ih =>
    obtain ⟨here, later⟩ := List.forall_mem_cons.mp options
    simp only [List.cons_append]
    rcases argument_cases arg with ⟨path, rfl⟩ | ⟨stat, rfl⟩ | source | ⟨dashed, unknown⟩
    · rw [readParse_file, readParse_file, ih later]
    · cases groups with
      | nil => rw [readParse_alone, readParse_alone]
      | cons group groups => rw [readParse_record, readParse_record, ih later]
    · exact absurd source here
    · rw [readParse_unknown dashed unknown, readParse_unknown dashed unknown]

end

/-- Arguments are accepted exactly when one of them is no option, no option is unknown, files have
names of their own and records come after a file. The source is then the one argument that is no
option, and the groups written out one after another are all the other arguments in their order.
So wherever the source stands among them, the answer is the same. -/
theorem grouping_keeps_options (args : List String) :
    ((∃ source groups, readParse none [] args = .ok (source, groups)) ↔ Grouped args) ∧
    (∀ source groups, readParse none [] args = .ok (source, groups) →
      ∃ before after, args = before ++ source :: after ∧ Positional source ∧
        (∀ arg ∈ before ++ after, ¬Positional arg) ∧
        groups.flatMap StatsGroup.options = before ++ after) ∧
    (∀ before source after before' after', args = before ++ source :: after →
      Positional source → (∀ arg ∈ before ++ after, ¬Positional arg) →
      before' ++ after' = before ++ after →
      readParse none [] (before' ++ source :: after') = readParse none [] args) := by
  refine ⟨?_, ?_, ?_⟩
  · have none_found : (([] : List StatsGroup).map (·.path)).Nodup := List.nodup_nil
    rw [← continues_iff_grouped, ← accepted_iff none_found, Prod.exists]
  · intro source groups read
    obtain ⟨before, after, rfl, plain, options⟩ :=
      filter_eq_single_iff.mp (readParse_groups read).2.2
    refine ⟨before, after, rfl, plain, options, ?_⟩
    rw [options_of_read read, filter_options plain options]
    rfl
  · rintro before source after before' after' rfl plain options same
    rw [readParse_moved plain fun arg held => options arg (List.mem_append_left _ held), ← same]
    rw [← same] at options
    exact readParse_moved plain fun arg held => options arg (List.mem_append_left _ held)

/-- A source between a file's records leaves the group whole, as a source in front of them does. -/
theorem source_inside_group :
    readParse none [] ["--stats=a", "--loc", "code", "--eol"] =
      .ok ("code", [⟨"a", [.loc, .eol]⟩]) ∧
    Grouped ["--stats=a", "--loc", "code", "--eol"] ∧
    readParse none [] ["code", "--stats=a", "--loc", "--eol"] =
      readParse none [] ["--stats=a", "--loc", "code", "--eol"] := by
  have read : readParse none [] ["--stats=a", "--loc", "code", "--eol"] =
      .ok ("code", [⟨"a", [.loc, .eol]⟩]) := by decide
  obtain ⟨accepted, -, moved⟩ := grouping_keeps_options ["--stats=a", "--loc", "code", "--eol"]
  refine ⟨read, accepted.mp ⟨_, _, read⟩, ?_⟩
  refine moved ["--stats=a", "--loc"] "code" ["--eol"] [] _ rfl ?_ ?_ rfl
  · exact positional_iff.mpr (by decide)
  · intro arg held
    rw [positional_iff]
    revert arg held
    decide

end Framecode.Command
