import Framecode.Proofs.Engine.Causes
import Framecode.Proofs.Names
import Framecode.Proofs.Sorting

/-! Instructions that fail. In place, a handler may have popped, taken or stored
something by the time it stops, and yet the machine is found as it was: the next
position is past the instruction, READ may have taken a line, and that is all. A run
ends with the first fault, whose order is that of the last instruction fetched and
whose cause is right about that instruction. -/
namespace Framecode.Engine

/-! ## Lines of input -/

/-- The words for the types that can be read. -/
def readableWords : List String := ["int", "bool", "string"]

private theorem readable_iff {word : String} :
    (Readable.ofName? word).isSome = true ↔ word ∈ readableWords := by
  constructor
  · intro readable
    unfold Readable.ofName? at readable
    cases named : ValueType.ofName? word with
    | none =>
      rw [named] at readable
      cases readable
    | some type =>
      rw [named] at readable
      cases ValueType.ofName_some_iff.mp named
      cases type with
      | int | bool | string => simp [readableWords, ValueType.name]
      | nil => cases readable
  · intro listed
    simp only [readableWords, List.mem_cons, List.not_mem_nil, or_false] at listed
    rcases listed with rfl | rfl | rfl <;> rfl

namespace Input

/-- One line is gone from an input: all up to the first line feed, or everything where
there is none. At the end of the input that is nothing at all. -/
inductive LineTaken : Input → Input → Prop where
  | ended {line following : List UInt8} (whole : lineFeed ∉ line) :
      LineTaken ⟨line ++ lineFeed :: following⟩ ⟨following⟩
  | unended {line : List UInt8} (whole : lineFeed ∉ line) : LineTaken ⟨line⟩ ⟨[]⟩

/-- A line that is one byte longer is taken in the same way. -/
theorem LineTaken.cons {bytes following : List UInt8} {byte : UInt8} (other : byte ≠ lineFeed)
    (taken : LineTaken ⟨bytes⟩ ⟨following⟩) : LineTaken ⟨byte :: bytes⟩ ⟨following⟩ := by
  cases taken with
  | @ended line _ whole =>
    have longer : lineFeed ∉ byte :: line := by simp [other.symm, whole]
    exact .ended longer
  | unended whole =>
    have longer : lineFeed ∉ byte :: bytes := by simp [other.symm, whole]
    exact .unended longer

private theorem rest_takes_line (input : Input) : input.LineTaken input.rest := by
  obtain ⟨bytes⟩ := input
  simp only [rest]
  induction bytes with
  | nil => exact .unended List.not_mem_nil
  | cons byte bytes ih =>
    rw [splitLine]
    by_cases ends : byte = lineFeed
    · rw [if_pos ends, ends]
      exact @LineTaken.ended [] bytes List.not_mem_nil
    · rw [if_neg ends]
      exact ih.cons ends

end Input

/-! ## The state that a failed instruction leaves -/

/-- An instruction has changed nothing, except that the next position is the one behind
it. A READ of a type that can be read may have taken a line of the input. -/
structure Untouched (before : State) (instr : Instruction) (after : State) : Prop where
  globals : after.frames.globals = before.frames.globals
  temporary : after.frames.temporary = before.frames.temporary
  locals : after.frames.locals = before.frames.locals
  data : after.data = before.data
  calls : after.calls = before.calls
  written : after.written = before.written
  next : after.next = before.next + 1
  input : after.input = before.input ∨
    instr.opcode = .read ∧
      (∃ target type, instr.args = [target, type] ∧ type.text ∈ readableWords) ∧
      before.input.LineTaken after.input

theorem takesLine_read {instr : Instruction} (takes : takesLine instr = true) :
    instr.opcode = .read ∧
      ∃ target type, instr.args = [target, type] ∧ type.text ∈ readableWords := by
  unfold takesLine at takes
  split at takes
  · rename_i target type found
    obtain ⟨opcode, args⟩ := read_of_operation found
    exact ⟨opcode, target, type, args, readable_iff.mp takes⟩
  · cases takes

/-- Fetching an instruction, with the line that it takes, changes nothing else. -/
theorem fetched_untouched (state : State) (instr : Instruction) :
    Untouched state instr (state.fetched instr) where
  globals := rfl
  temporary := rfl
  locals := rfl
  data := rfl
  calls := rfl
  written := rfl
  next := rfl
  input := by
    unfold State.fetched
    by_cases takes : takesLine instr = true
    · obtain ⟨opcode, typed⟩ := takesLine_read takes
      rw [if_pos takes]
      exact .inr ⟨opcode, typed, state.input.rest_takes_line⟩
    · rw [if_neg takes]
      exact .inl rfl

/-- A step ends in a fault exactly when the checks of the fetched instruction do, and
then it only fetches. -/
theorem step_failed_iff {machine : Machine} {state last : State} {fault : Fault} :
    machine.step state = .finished (.failed fault) last ↔
      ∃ instr, machine.code.fetch? state.next = some instr ∧
        machine.effect state instr = .error fault.cause ∧ fault.order = instr.order ∧
        last = state.fetched instr := by
  unfold Machine.step
  cases fetched : machine.code.fetch? state.next with
  | none => simp
  | some instr =>
    constructor
    · intro ran
      simp only at ran
      split at ran
      · rename_i cause refused
        cases ran
        exact ⟨instr, rfl, refused, rfl, rfl⟩
      · cases ran
      · cases ran
    · rintro ⟨_, same, refused, order, rfl⟩
      cases same
      simp only [refused, ← order]

/-- The instructions of a loaded program have their arguments counted right. -/
theorem counted_of_load {program : Program} {code : Code} (loaded : Code.load program = .ok code) :
    ∀ instr ∈ code.instructions, instr.args.length = instr.opcode.arity :=
  fun instr member => counted_of_well_formed ((load_ok loaded).2.1 instr member)

/-- Loading a program neither adds nor drops an instruction. -/
theorem loaded_mem_iff {program : Program} {code : Code} (loaded : Code.load program = .ok code)
    {instr : Instruction} : instr ∈ code.instructions ↔ instr ∈ program.instructions := by
  rw [(load_ok loaded).1]
  exact (sorted_perm program).mem_iff

/-- The instructions of a loaded program are well formed. -/
theorem formed_of_load {program : Program} {code : Code} (loaded : Code.load program = .ok code) :
    ∀ instr ∈ program.instructions, instr.isWellFormed = true :=
  fun instr member => (load_ok loaded).2.1 instr ((loaded_mem_iff loaded).mpr member)

/-- An instruction of a loaded program that fails leaves the machine as it was, in
whatever state it is executed: the frames, both stacks and the output are the same, and
the next position is the one behind the instruction, never a target. Only a READ of an
int, a bool or a string may have taken one line of the input by then. -/
theorem failed_instruction_changes_nothing {program : Program} {machine : Machine}
    {registers : Registers} {instr : Instruction} (loaded : Code.load program = .ok machine.code)
    (fetched : machine.code.fetch? registers.next = some instr) :
    machine.handle instr (registers.fetched instr) =
        (machine.step registers.toState).inPlace instr.order ∧
      ∀ trap last, machine.handle instr (registers.fetched instr) = .error trap last →
        Untouched registers.toState instr last.toState ∧
          ∃ fault, trap = .fault fault ∧
            machine.step registers.toState = .finished (.failed fault) last.toState := by
  have agree := handle_eq_step fetched (counted_of_load loaded instr (fetch_member fetched))
  refine ⟨agree, ?_⟩
  intro trap last failed
  rw [agree] at failed
  cases ran : machine.step registers.toState with
  | running next =>
    rw [ran] at failed
    cases failed
  | finished outcome after =>
    rw [ran] at failed
    cases outcome with
    | completed | exited status => cases failed
    | failed fault =>
      cases failed
      obtain ⟨other, same, _, _, rfl⟩ := step_failed_iff.mp ran
      cases fetched.symm.trans same
      exact ⟨fetched_untouched registers.toState instr, fault, rfl, rfl⟩

/-- A program that reads into a variable it does not declare. -/
def misdirected : Program :=
  ⟨[⟨1, .pushs, [⟨.literal .int, "5"⟩]⟩, ⟨2, .read, [⟨.var, "GF@x"⟩, ⟨.typeName, "int"⟩]⟩]⟩

theorem failed_read_changes_nothing :
    let machine : Machine := ⟨⟨misdirected.instructions, {}⟩, .accepting⟩
    let instr : Instruction := ⟨2, .read, [⟨.var, "GF@x"⟩, ⟨.typeName, "int"⟩]⟩
    let before : Registers :=
      { data := ⟨[.int 5]⟩, next := 2, input := ⟨[55, 10, 56]⟩, current := 1 }
    let after : Registers := { data := ⟨[.int 5]⟩, next := 3, input := ⟨[56]⟩, current := 2 }
    Code.load misdirected = .ok machine.code ∧
    machine.code.fetch? before.next = some instr ∧
    machine.handle instr (before.fetched instr) =
      .error (.fault ⟨2, .undefinedVariable ⟨.globalFrame, "x"⟩⟩) after ∧
    Untouched before.toState instr after.toState := by
  intro machine instr before after
  have sorted : misdirected.sorted = misdirected.instructions :=
    sorted_eq_self_iff.mpr (by unfold Ordered; decide)
  have loaded : Code.load misdirected = .ok machine.code := by
    rw [Code.load, sorted]
    rfl
  have fetched : machine.code.fetch? before.next = some instr := rfl
  have failed : machine.handle instr (before.fetched instr) =
      .error (.fault ⟨2, .undefinedVariable ⟨.globalFrame, "x"⟩⟩) after := by
    rfl
  have kept := (failed_instruction_changes_nothing loaded fetched).2 _ _ failed
  exact ⟨loaded, fetched, failed, kept.1⟩

/-! ## The last instruction of a run -/

/-- The last instruction that a run fetches, with the state before it. -/
def Machine.lastFetched (machine : Machine) (fuel : Nat) (state : State) :
    Option (State × Instruction) :=
  (machine.runWatched (fun _ before instr => some (before, instr)) fuel state none).seen

/-- A run ends as it does whoever watches it. -/
theorem outcome_of_watched {machine : Machine} {σ : Type} (watch : σ → State → Instruction → σ)
    (fuel : Nat) (state : State) (seen : σ) :
    (machine.runWatched watch fuel state seen).outcome = (machine.run fuel state).outcome := by
  induction fuel generalizing state seen with
  | zero => rfl
  | succ fuel ih =>
    rw [Machine.run, Machine.runWatched, Machine.runWatched]
    cases machine.step state with
    | running next => exact ih next _
    | finished outcome last => rfl

/-- A fault that ends a run is that of the last instruction fetched. -/
theorem fault_at_last_fetched {machine : Machine} {fuel : Nat} {state : State} {fault : Fault}
    (failed : (machine.run fuel state).outcome = some (.failed fault)) :
    ∃ before instr, machine.lastFetched fuel state = some (before, instr) ∧
      machine.code.fetch? before.next = some instr ∧
      machine.effect before instr = .error fault.cause ∧ fault.order = instr.order := by
  unfold Machine.lastFetched
  rw [← outcome_of_watched (fun _ before instr => some (before, instr)) fuel state none] at failed
  generalize (none : Option (State × Instruction)) = seen at failed ⊢
  induction fuel generalizing state seen with
  | zero => cases failed
  | succ fuel ih =>
    rw [Machine.runWatched] at failed ⊢
    cases ran : machine.step state with
    | running next =>
      simp only [ran] at failed ⊢
      exact ih _ failed
    | finished outcome last =>
      simp only [ran, Option.some.injEq] at failed ⊢
      cases failed
      obtain ⟨instr, fetched, refused, order, _⟩ := step_failed_iff.mp ran
      exact ⟨state, instr, by simp [Machine.observe, fetched], fetched, refused, order⟩

/-- A label that a loaded program does not know is defined nowhere in it. -/
theorem undefined_of_position {program : Program} {code : Code} {label : String}
    (loaded : Code.load program = .ok code) (unknown : code.labels.position? label = none) :
    ∀ instr ∈ program.instructions, ¬ Defines instr label := by
  obtain ⟨_, _, built⟩ := load_ok loaded
  intro instr member defined
  obtain ⟨index, found⟩ := List.mem_iff_getElem?.mp ((loaded_mem_iff loaded).mpr member)
  have known := (LabelTable.position_ofInstructions built label (index + 1)).mpr
    ⟨index, instr, found, rfl, defined⟩
  rw [unknown] at known
  cases known

/-- Execution of a loaded program that does not come to its end stops with a fault at the
order of the last instruction fetched, never for an opcode that nobody handles, and never
for the way the program is built. A variable without a value is then one that an argument
names and that a frame declares, and an undefined label is one that a call or a jump names
and that no LABEL of the program defines. -/
theorem loaded_faults_name_instruction {program : Program} {machine : Machine}
    (loaded : Code.load program = .ok machine.code) (input : Input) (fuel : Nat) :
    (machine.execute fuel { toState := .initial input }).1 =
        (machine.run fuel (.initial input)).outcome.map Outcome.inPlace ∧
      ∀ trap, (machine.execute fuel { toState := .initial input }).1 = some (.error trap) →
        ∃ fault before instr, trap = .fault fault ∧
          machine.lastFetched fuel (.initial input) = some (before, instr) ∧
          fault.order = instr.order ∧
          (∀ opcode, fault.cause ≠ .malformedInstruction opcode) ∧
          fault.cause ≠ .invalidOrder ∧
          (∀ label, fault.cause ≠ .duplicateLabel label) ∧
          (∀ text, fault.cause = .unassignedVariable text →
            ∃ arg ∈ instr.args, arg.kind = .var ∧ arg.text = text ∧
              ∃ var, arg.varRef = .ok var ∧ before.frames.Unassigned var) ∧
          (∀ label, fault.cause = .undefinedLabel label →
            instr.opcode ∈ jumpOpcodes ∧ instr.args.head? = some ⟨.label, label⟩ ∧
              ∀ other ∈ program.instructions, ¬ Defines other label) := by
  have agree := (execute_eq_run (counted_of_load loaded) fuel { toState := .initial input }).1
  refine ⟨agree, ?_⟩
  intro trap trapped
  rw [agree] at trapped
  obtain ⟨outcome, failed, same⟩ := Option.map_eq_some_iff.mp trapped
  cases outcome with
  | completed | exited status => cases same
  | failed fault =>
    cases same
    obtain ⟨before, instr, last, fetched, refused, order⟩ := fault_at_last_fetched failed
    have formed := (load_ok loaded).2.1 instr (fetch_member fetched)
    have right := justified_of_effect formed refused
    refine ⟨fault, before, instr, rfl, last, order, fun _ same => ?_, fun same => ?_,
      fun _ same => ?_, fun _ same => ?_, fun _ same => ?_⟩ <;> rw [same] at right
    · exact right
    · exact right
    · exact right
    · exact right
    · exact ⟨right.1, right.2.1, undefined_of_position loaded right.2.2⟩

/-- A program that reads a variable before it has a value. -/
def hasty : Program :=
  ⟨[⟨20, .pushs, [⟨.var, "GF@x"⟩]⟩, ⟨10, .defVar, [⟨.var, "GF@x"⟩]⟩]⟩

/-- The same program once it is loaded. -/
def hastyCode : Code where
  instructions := [⟨10, .defVar, [⟨.var, "GF@x"⟩]⟩, ⟨20, .pushs, [⟨.var, "GF@x"⟩]⟩]
  labels := {}

theorem hasty_fault_names_pushs :
    Code.load hasty = .ok hastyCode ∧
    (Machine.execute ⟨hastyCode, .accepting⟩ 9 {}).1 =
      some (.error (.fault ⟨20, .unassignedVariable "GF@x"⟩)) ∧
    ∃ before instr, Machine.lastFetched ⟨hastyCode, .accepting⟩ 9 {} = some (before, instr) ∧
      instr.order = 20 ∧ ∃ arg ∈ instr.args, arg.kind = .var ∧
        ∃ var, arg.varRef = .ok var ∧ before.frames.Unassigned var := by
  have sorted : hasty.sorted = hastyCode.instructions :=
    sorted_unique (by decide) (by decide) (by unfold Ordered; decide)
  have loaded : Code.load hasty = .ok hastyCode := by
    rw [Code.load, sorted]
    rfl
  have trapped : (Machine.execute ⟨hastyCode, .accepting⟩ 9 {}).1 =
      some (.error (.fault ⟨20, .unassignedVariable "GF@x"⟩)) := by
    rfl
  obtain ⟨_, faults⟩ := @loaded_faults_name_instruction hasty ⟨hastyCode, .accepting⟩ loaded {} 9
  obtain ⟨fault, before, instr, same, last, order, _, _, _, unassigned, _⟩ := faults _ trapped
  cases same
  obtain ⟨arg, member, kind, _, named⟩ := unassigned _ rfl
  exact ⟨loaded, trapped, before, instr, last, order.symm, arg, member, kind, named⟩

end Framecode.Engine
