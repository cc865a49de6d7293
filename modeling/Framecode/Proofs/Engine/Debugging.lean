import Framecode.Proofs.Engine.Failures
import Framecode.Proofs.Engine.Positions
import Framecode.Proofs.Engine.Runs
import Mathlib.Data.List.Basic

/-! Debugging instructions are inert. A program without its DPRINT and BREAK instructions
has every other one at a position that is closer to the start by the number of those that
are gone before it. Labels, the next position and the positions that calls return to are
all moved in the same way, so that the shorter program takes the same steps, except that
it does not stop by at the instructions that do nothing. -/
namespace Framecode

/-- Whether an instruction is there for debugging only. -/
def Instruction.isDebug (instr : Instruction) : Bool :=
  instr.opcode = .dprint || instr.opcode = .breakpoint

/-- A program without its debugging instructions. The other ones keep their orders. -/
def Program.quiet (program : Program) : Program :=
  ⟨program.instructions.filter (!·.isDebug)⟩

namespace Engine

/-! ## Positions that are moved -/

/-- Labels with their positions moved. -/
def LabelTable.relocate (move : Nat → Nat) (table : LabelTable) : LabelTable :=
  ⟨table.entries.map fun entry => (entry.1, move entry.2)⟩

/-- A state with its positions moved. -/
def State.relocate (move : Nat → Nat) (state : State) : State :=
  { state with next := move state.next, calls := ⟨state.calls.items.map move⟩ }

/-- An effect that goes to a position that is moved. -/
def Effect.relocate (move : Nat → Nat) : Effect → Effect
  | .jump target => .jump (move target)
  | .call target => .call (move target)
  | .ret target => .ret (move target)
  | other => other

/-- Where the instruction at a position stands once debugging instructions are gone. For
one of these it is where the next other instruction stands. -/
def Code.quietPosition (code : Code) : Nat → Nat
  | 0 => 0
  | index + 1 => (code.instructions.take index).countP (!·.isDebug) + 1

/-- A state of a run, as it is once debugging instructions are gone. -/
def State.quiet (code : Code) (state : State) : State := state.relocate code.quietPosition

/-- A step, as it is once debugging instructions are gone. -/
def Progress.quiet (code : Code) : Progress → Progress
  | .running state => .running (state.quiet code)
  | .finished outcome state => .finished outcome (state.quiet code)

/-- The end of a run, as it is once debugging instructions are gone. -/
def Ended.quiet {σ : Type} (code : Code) (ended : Ended σ) : Ended σ :=
  { ended with state := ended.state.quiet code }

/-- Loaded instructions without those for debugging. -/
def Code.quiet (code : Code) : Code where
  instructions := code.instructions.filter (!·.isDebug)
  labels := code.labels.relocate code.quietPosition

/-- A machine whose program has no debugging instructions. -/
def Machine.quiet (machine : Machine) : Machine := { machine with code := machine.code.quiet }

/-! ## Loading -/

namespace LabelTable

variable {move : Nat → Nat}

private theorem position_relocate (table : LabelTable) (name : String) :
    (table.relocate move).position? name = (table.position? name).map move := by
  obtain ⟨entries⟩ := table
  simp only [position?, relocate]
  induction entries with
  | nil => rfl
  | cons entry rest ih =>
    rw [List.map_cons, List.lookup_cons, List.lookup_cons]
    cases name == entry.1 with
    | true => rfl
    | false => exact ih

private theorem add_relocate (table : LabelTable) (position : Nat) (instr : Instruction) :
    (table.relocate move).add (move position) instr =
      (table.add position instr).map (·.relocate move) := by
  unfold add
  by_cases labelled : instr.opcode = .label
  · rw [if_pos labelled, if_pos labelled]
    cases instr.args with
    | nil => rfl
    | cons arg rest =>
      simp only [position_relocate, Option.isSome_map]
      split <;> rfl
  · rw [if_neg labelled, if_neg labelled]
    rfl

private theorem add_of_debug {instr : Instruction} (debug : instr.isDebug = true)
    (table : LabelTable)
    (position : Nat) : table.add position instr = .ok table := by
  have other : instr.opcode ≠ .label := by
    intro labelled
    rw [Instruction.isDebug, labelled] at debug
    cases debug
  rw [add, if_neg other]

/-- The labels of instructions without those for debugging are those of all instructions,
moved, as long as every position is moved by the number of instructions that are gone
before it. -/
theorem addAll_quiet {table : LabelTable} {start place : Nat} {instructions : List Instruction}
    (moves : ∀ index,
      move (start + index) = place + (instructions.take index).countP (!·.isDebug)) :
    (table.relocate move).addAll place (instructions.filter (!·.isDebug)) =
      (table.addAll start instructions).map (·.relocate move) := by
  induction instructions generalizing table start place with
  | nil => rfl
  | cons instr rest ih =>
    have here : move start = place := moves 0
    have behind : ∀ index, move (start + 1 + index) =
        place + ((rest.take index).countP (!·.isDebug) + if instr.isDebug then 0 else 1) := by
      intro index
      have after := moves (index + 1)
      rw [List.take_succ_cons, List.countP_cons] at after
      rw [Nat.add_assoc, Nat.add_comm 1 index, after]
      cases instr.isDebug <;> rfl
    rw [addAll]
    by_cases debug : instr.isDebug = true
    · rw [add_of_debug debug, List.filter_cons_of_neg (by simp [debug])]
      refine ih fun index => ?_
      rw [behind, if_pos debug, Nat.add_zero]
    · rw [List.filter_cons_of_pos (by simp [debug]), addAll, ← here, add_relocate, here]
      cases table.add start instr with
      | error fault => rfl
      | ok next =>
        refine ih fun index => ?_
        rw [behind, if_neg debug]
        omega

end LabelTable

private theorem sorted_quiet {program : Program}
    (distinct : (program.instructions.map (·.order)).Nodup) :
    program.quiet.sorted = program.sorted.filter (!·.isDebug) := by
  refine sorted_unique ?_ ((sorted_perm program).filter _) ((sorted_ordered program).filter _)
  exact distinct.sublist (List.filter_sublist.map _)

/-- A program that loads does so without its debugging instructions. -/
theorem load_quiet {program : Program} {code : Code} (loaded : Code.load program = .ok code) :
    Code.load program.quiet = .ok code.quiet := by
  have sorted := sorted_quiet (distinct_of_load loaded).of_cons
  obtain ⟨checked, built, instructions⟩ := load_ok_iff.mp loaded
  obtain ⟨increasing, formed⟩ := check_ok_iff.mp checked
  refine load_ok_iff.mpr ⟨check_ok_iff.mpr ⟨?_, ?_⟩, ?_, ?_⟩
  · rw [sorted]
    exact increasing.sublist (List.Sublist.cons_cons _ (List.filter_sublist.map _))
  · rw [sorted]
    exact fun instr member => formed instr (List.mem_of_mem_filter member)
  · have moves : ∀ index, code.quietPosition (1 + index) =
        1 + (program.sorted.take index).countP (!·.isDebug) := by
      intro index
      rw [Nat.add_comm 1 index, Code.quietPosition, instructions, Nat.add_comm]
    have moved := @LabelTable.addAll_quiet code.quietPosition {} 1 1 program.sorted moves
    rw [LabelTable.ofInstructions] at built ⊢
    rw [sorted]
    rw [built] at moved
    exact moved
  · rw [sorted, Code.quiet, instructions]

/-! ## Fetching -/

/-- An item that is kept stands behind the kept ones among those before it. -/
theorem getElem_filter_countP {α : Type} {keep : α → Bool} {items : List α} {index : Nat} {item : α}
    (held : items[index]? = some item) (kept : keep item = true) :
    (items.filter keep)[(items.take index).countP keep]? = some item := by
  induction items generalizing index with
  | nil => cases held
  | cons first rest ih =>
    cases index with
    | zero =>
      cases held
      rw [List.filter_cons_of_pos kept]
      rfl
    | succ index =>
      rw [List.take_succ_cons, List.countP_cons]
      by_cases keeps : keep first = true
      · rw [List.filter_cons_of_pos keeps, if_pos keeps, List.getElem?_cons_succ]
        exact ih held
      · rw [List.filter_cons_of_neg keeps, if_neg keeps]
        exact ih held

private theorem fetch_quiet {code : Code} {position : Nat} {instr : Instruction}
    (fetched : code.fetch? position = some instr) (kept : instr.isDebug = false) :
    code.quiet.fetch? (code.quietPosition position) = some instr := by
  obtain ⟨positive, held⟩ := fetch_some_iff.mp fetched
  obtain ⟨index, rfl⟩ := Nat.exists_eq_add_of_le' positive
  refine fetch_some_iff.mpr ⟨Nat.le_add_left 1 _, ?_⟩
  exact getElem_filter_countP held (by simp [kept])

private theorem fetch_quiet_none {code : Code} {position : Nat}
    (nothing : code.fetch? position = none) :
    code.quiet.fetch? (code.quietPosition position) = none := by
  refine fetch_none_iff.mpr ?_
  cases position with
  | zero => exact .inl rfl
  | succ index =>
    have outside : code.size ≤ index := by
      rcases fetch_none_iff.mp nothing with zero | behind
      · cases zero
      · omega
    refine .inr ?_
    rw [Code.quietPosition, List.take_of_length_le outside, List.countP_eq_length_filter]
    exact Nat.lt_succ_self _

/-- The position behind an instruction is moved to where that instruction is moved if it
is for debugging, and behind it otherwise. -/
theorem quietPosition_succ {code : Code} {position : Nat} {instr : Instruction}
    (fetched : code.fetch? position = some instr) :
    code.quietPosition (position + 1) =
      code.quietPosition position + if instr.isDebug then 0 else 1 := by
  obtain ⟨positive, held⟩ := fetch_some_iff.mp fetched
  obtain ⟨index, rfl⟩ := Nat.exists_eq_add_of_le' positive
  rw [Nat.add_sub_cancel] at held
  rw [Code.quietPosition, Code.quietPosition, List.take_add_one, held, List.countP_append,
    Option.toList_some, List.countP_singleton]
  cases instr.isDebug <;> simp

/-! ## Steps -/

section

variable {machine other : Machine} {move : Nat → Nat}

private theorem positionOf_relocate (labels : other.code.labels = machine.code.labels.relocate move)
    (label : String) : other.positionOf label = (machine.positionOf label).map move := by
  unfold Machine.positionOf
  rw [labels, LabelTable.position_relocate]
  cases machine.code.labels.position? label <;> rfl

/-- Where labels are moved, an operation has the same effect except that it goes to a
moved position. -/
theorem plan_relocate (sinks : other.sink = machine.sink)
    (labels : other.code.labels = machine.code.labels.relocate move) (state : State)
    (operation : Operation) :
    other.plan (state.relocate move) operation =
      (machine.plan state operation).map (·.relocate move) := by
  cases operation with
  | createFrame | label | dprint | breakpoint => rfl
  | store | define | pushFrame | popFrame | push | exit =>
    simp only [Machine.plan, map_bind_except]
    rfl
  | read target type =>
    simp only [Machine.plan]
    cases Readable.ofName? type.text with
    | none => rfl
    | some readable =>
      simp only [map_bind_except]
      rfl
  | pop target =>
    simp only [Machine.plan, map_bind_except]
    refine bind_congr fun var => ?_
    cases held : state.data.top? <;> simp [State.relocate, held] <;> rfl
  | write source =>
    simp only [Machine.plan, map_bind_except, sinks]
    refine bind_congr fun value => ?_
    cases refused : machine.sink.refusal state.written value.display <;>
      simp [State.relocate, refused] <;> rfl
  | jump label | call label =>
    simp only [Machine.plan, map_bind_except, positionOf_relocate labels, bind_map_except]
    rfl
  | branch onEqual label left right =>
    simp only [Machine.plan, map_bind_except, positionOf_relocate labels, bind_map_except]
    refine bind_congr fun target => bind_congr fun leftValue => bind_congr fun rightValue =>
      bind_congr fun equal => ?_
    cases equal == onEqual <;> rfl
  | ret =>
    simp only [Machine.plan, State.relocate, Stack.top?]
    cases state.calls.items <;> rfl

/-- An effect that goes to a moved position leads to the moved state. -/
theorem apply_relocate (state : State) (effect : Effect) :
    (state.relocate move).apply (effect.relocate move) = (state.apply effect).relocate move := by
  cases effect with
  | ret target => simp [State.apply, State.relocate, Effect.relocate, Stack.pop, List.map_tail]
  | _ => rfl

end

section

variable {machine : Machine} {state : State} {instr : Instruction}

/-- An instruction that is kept takes its step with all positions moved. -/
theorem step_kept (fetched : machine.code.fetch? state.next = some instr)
    (kept : instr.isDebug = false) :
    machine.quiet.step (state.quiet machine.code) = (machine.step state).quiet machine.code := by
  have found : machine.quiet.code.fetch? (state.quiet machine.code).next = some instr :=
    fetch_quiet fetched kept
  have checked : machine.quiet.effect (state.quiet machine.code) instr =
      (machine.effect state instr).map (·.relocate machine.code.quietPosition) := by
    unfold Machine.effect
    cases operation? instr with
    | none => rfl
    | some operation => exact @plan_relocate machine machine.quiet _ rfl rfl state operation
  have behind : (state.quiet machine.code).fetched instr =
      (state.fetched instr).quiet machine.code := by
    simp [State.fetched, State.quiet, State.relocate, quietPosition_succ fetched, kept]
  rw [Machine.step, Machine.step, found, fetched]
  simp only [checked, behind]
  cases machine.effect state instr with
  | error cause => rfl
  | ok effect =>
    have applied := @apply_relocate machine.code.quietPosition (state.fetched instr) effect
    cases effect with
    | stop status => rfl
    | _ => exact congrArg Progress.running applied

/-- Where there is nothing to fetch, there is nothing to fetch among the kept ones. -/
theorem step_behind (nothing : machine.code.fetch? state.next = none) :
    machine.quiet.step (state.quiet machine.code) = (machine.step state).quiet machine.code := by
  have missing : machine.quiet.code.fetch? (state.quiet machine.code).next = none :=
    fetch_quiet_none nothing
  rw [Machine.step, Machine.step, missing, nothing]
  rfl

private theorem operation_of_debug (counted : instr.args.length = instr.opcode.arity)
    (debug : instr.isDebug = true) :
    (∃ shown, operation? instr = some (.dprint shown)) ∨ operation? instr = some .breakpoint := by
  obtain ⟨order, opcode, args⟩ := instr
  simp only [Instruction.isDebug, Bool.or_eq_true, decide_eq_true_eq] at debug
  rcases debug with rfl | rfl
  · obtain ⟨shown, rfl⟩ := List.length_eq_one_iff.mp counted
    exact .inl ⟨shown, rfl⟩
  · cases List.length_eq_zero_iff.mp counted
    exact .inr rfl

/-- A debugging instruction only moves on to the next one. -/
theorem step_debug (fetched : machine.code.fetch? state.next = some instr)
    (counted : instr.args.length = instr.opcode.arity) (debug : instr.isDebug = true) :
    machine.step state = .running { state with next := state.next + 1 } := by
  rcases operation_of_debug counted debug with ⟨shown, found⟩ | found
  · simp [Machine.step, fetched, Machine.effect, found, Machine.plan, State.fetched, takesLine,
      State.apply, pure, Except.pure]
  · simp [Machine.step, fetched, Machine.effect, found, Machine.plan, State.fetched, takesLine,
      State.apply, pure, Except.pure]

/-- A debugging instruction is not seen once all positions are moved. -/
theorem quiet_behind_debug (fetched : machine.code.fetch? state.next = some instr)
    (debug : instr.isDebug = true) :
    State.quiet machine.code { state with next := state.next + 1 } = state.quiet machine.code := by
  simp [State.quiet, State.relocate, quietPosition_succ fetched, debug]

variable
  (counted : ∀ instr ∈ machine.code.instructions, instr.args.length = instr.opcode.arity)
include counted

/-- A step either passes by a debugging instruction, or it is a step of the machine without
them. -/
theorem step_quiet (state : State) :
    (∃ instr, machine.code.fetch? state.next = some instr ∧ instr.isDebug = true ∧
      machine.step state = .running { state with next := state.next + 1 } ∧
      State.quiet machine.code { state with next := state.next + 1 } = state.quiet machine.code) ∨
    (machine.quiet.code.fetch? (state.quiet machine.code).next = machine.code.fetch? state.next ∧
      machine.quiet.step (state.quiet machine.code) =
        (machine.step state).quiet machine.code) := by
  cases fetched : machine.code.fetch? state.next with
  | none => exact .inr ⟨fetch_quiet_none fetched, step_behind fetched⟩
  | some instr =>
    cases debug : instr.isDebug with
    | true =>
      have arity := counted instr (fetch_member fetched)
      exact .inl ⟨instr, rfl, debug, step_debug fetched arity debug,
        quiet_behind_debug fetched debug⟩
    | false => exact .inr ⟨fetch_quiet fetched debug, step_kept fetched debug⟩

/-! ## Runs -/

/-- A run that ends does so without debugging instructions, in the same way, and so it
looks to everybody who does not care for these instructions. -/
theorem run_quiet {σ : Type} {watch : σ → Instruction → σ}
    (ignores : ∀ seen instr, instr.isDebug = true → watch seen instr = seen) {fuel : Nat} {seen : σ}
    {outcome : Outcome}
    (ended : (machine.runWatched (fun seen _ => watch seen) fuel state seen).outcome =
      some outcome) :
    ∃ fewer, machine.quiet.runWatched (fun seen _ => watch seen) fewer (state.quiet machine.code)
        seen =
      (machine.runWatched (fun seen _ => watch seen) fuel state seen).quiet machine.code := by
  induction fuel generalizing state seen with
  | zero => cases ended
  | succ fuel ih =>
    rcases step_quiet counted state with ⟨instr, fetched, debug, ran, same⟩ | ⟨fetched, ran⟩
    · -- The shorter program stays where it is, so only the fuel of the longer one goes down.
      have unnoticed : machine.observe (fun seen _ => watch seen) state seen = seen := by
        rw [Machine.observe, fetched]
        exact ignores seen instr debug
      rw [runWatched_running ran, unnoticed] at ended ⊢
      rw [← same]
      exact ih ended
    · have noticed :
          machine.quiet.observe (fun seen _ => watch seen) (state.quiet machine.code) seen =
            machine.observe (fun seen _ => watch seen) state seen := by
        rw [Machine.observe, fetched, Machine.observe]
      cases whole : machine.step state with
      | running next =>
        rw [whole] at ran
        rw [runWatched_running whole] at ended ⊢
        obtain ⟨fewer, same⟩ := ih ended
        refine ⟨fewer + 1, ?_⟩
        rw [runWatched_running ran, noticed, same]
      | finished found last =>
        rw [whole] at ran
        refine ⟨1, ?_⟩
        rw [runWatched_finished ran, runWatched_finished whole, noticed]
        rfl

/-- A run soon comes to an instruction that is not for debugging, or to the end. -/
theorem past_debugging (state : State) :
    ∃ steps first, (∀ fuel, machine.run (fuel + steps) state = machine.run fuel first) ∧
      first.quiet machine.code = state.quiet machine.code ∧
      machine.quiet.step (first.quiet machine.code) = (machine.step first).quiet machine.code := by
  -- Debugging instructions never jump, so there are no more of them than positions left.
  induction left : machine.code.size + 1 - state.next generalizing state with
  | zero =>
    rcases step_quiet counted state with ⟨instr, fetched, _⟩ | ⟨_, ran⟩
    · have inside := (fetch_bounds fetched).2
      omega
    · exact ⟨0, state, fun _ => rfl, rfl, ran⟩
  | succ left ih =>
    rcases step_quiet counted state with ⟨instr, _, _, ran, same⟩ | ⟨_, ran⟩
    · obtain ⟨steps, first, later, moved, kept⟩ := ih { state with next := state.next + 1 } (by
        simp only
        omega)
      refine ⟨steps + 1, first, fun fuel => ?_, moved.trans same, kept⟩
      rw [← Nat.add_assoc, run_running ran, later]
    · exact ⟨0, state, fun _ => rfl, rfl, ran⟩

/-- A run ends if it does so without debugging instructions. -/
theorem ends_of_quiet {fuel : Nat} {outcome : Outcome}
    (ended : (machine.quiet.run fuel (state.quiet machine.code)).outcome = some outcome) :
    ∃ more found, (machine.run more state).outcome = some found := by
  induction fuel generalizing state with
  | zero => cases ended
  | succ fuel ih =>
    obtain ⟨steps, first, later, same, kept⟩ := past_debugging counted state
    rw [← same] at ended
    cases ran : machine.step first with
    | finished found last =>
      refine ⟨1 + steps, found, ?_⟩
      rw [later, run_finished ran]
    | running next =>
      rw [ran] at kept
      rw [run_running kept] at ended
      obtain ⟨more, found, endedToo⟩ := ih ended
      refine ⟨more + 1 + steps, found, ?_⟩
      rw [later, run_running ran, endedToo]

/-- Where both runs end, the one without debugging instructions ends as the other one
does, with all positions moved. -/
theorem ended_quiet {σ : Type} {watch : σ → Instruction → σ}
    (ignores : ∀ seen instr, instr.isDebug = true → watch seen instr = seen) {fuel fewer : Nat}
    {seen : σ} {outcome found : Outcome}
    (ended : (machine.runWatched (fun seen _ => watch seen) fuel state seen).outcome =
      some outcome)
    (endedToo : (machine.quiet.runWatched (fun seen _ => watch seen) fewer
      (state.quiet machine.code) seen).outcome = some found) :
    machine.quiet.runWatched (fun seen _ => watch seen) fewer (state.quiet machine.code) seen =
      (machine.runWatched (fun seen _ => watch seen) fuel state seen).quiet machine.code := by
  obtain ⟨enough, same⟩ := run_quiet counted ignores ended
  have endedThere : (machine.quiet.runWatched (fun seen _ => watch seen) enough
      (state.quiet machine.code) seen).outcome = some outcome := by
    rw [same]
    exact ended
  rw [ended_unique endedToo endedThere, same]

/-- A run ends with an outcome if and only if it does so without debugging instructions. -/
theorem ends_quiet_iff (outcome : Outcome) :
    (∃ fuel, (machine.run fuel state).outcome = some outcome) ↔
      ∃ fuel, (machine.quiet.run fuel (state.quiet machine.code)).outcome = some outcome := by
  have shorter : ∀ fuel found, (machine.run fuel state).outcome = some found →
      ∃ fewer, (machine.quiet.run fewer (state.quiet machine.code)).outcome = some found := by
    intro fuel found ended
    obtain ⟨fewer, same⟩ :=
      @run_quiet machine state counted Unit (fun _ _ => ()) (fun _ _ _ => rfl) fuel () found ended
    exact ⟨fewer, (congrArg Ended.outcome same).trans ended⟩
  constructor
  · rintro ⟨fuel, ended⟩
    exact shorter fuel outcome ended
  · rintro ⟨fewer, ended⟩
    obtain ⟨fuel, found, endedToo⟩ := ends_of_quiet counted ended
    obtain ⟨enough, endedThere⟩ := shorter fuel found endedToo
    have same := congrArg Ended.outcome (ended_unique ended endedThere)
    refine ⟨fuel, ?_⟩
    rw [endedToo, ← ended]
    exact endedThere.symm.trans same.symm

end

/-! ## What a run leaves behind -/

/-- Count the line that an instruction takes, if it takes one. -/
def countLine (lines : Nat) (instr : Instruction) : Nat :=
  if takesLine instr then lines + 1 else lines

/-- The number of lines of its input that a run takes. -/
def Machine.linesTaken (machine : Machine) (fuel : Nat) (input : Input) : Nat :=
  (machine.runWatched (fun lines _ => countLine lines) fuel (.initial input) 0).seen

private theorem countLine_of_debug {instr : Instruction} (debug : instr.isDebug = true)
    (lines : Nat) :
    countLine lines instr = lines := by
  refine if_neg fun takes => ?_
  rw [Instruction.isDebug, (takesLine_read takes).1] at debug
  cases debug

/-- Two states are the same in everything but positions. There are as many pending calls. -/
structure Alike (left right : State) : Prop where
  written : left.written = right.written
  globals : left.frames.globals = right.frames.globals
  locals : left.frames.locals = right.frames.locals
  temporary : left.frames.temporary = right.frames.temporary
  data : left.data = right.data
  calls : left.calls.size = right.calls.size
  input : left.input = right.input

private theorem quiet_alike (code : Code) (state : State) : Alike (state.quiet code) state where
  written := rfl
  globals := rfl
  locals := rfl
  temporary := rfl
  data := rfl
  calls := List.length_map _
  input := rfl

/-- Debugging instructions are inert. A program that loads does so without its DPRINT and
BREAK instructions. Whatever the input and the sink, it then ends if and only if it did so
before, with the same outcome: a fault is the same one, at the same order. The output, all
frames, the data stack and the rest of the input are the same, there are as many pending
calls, and as many lines have been read. -/
theorem debugging_is_inert {program : Program} {code : Code}
    (loaded : Code.load program = .ok code) :
    ∃ quiet, Code.load program.quiet = .ok quiet ∧ ∀ sink input outcome,
      ((∃ fuel, (Machine.run ⟨code, sink⟩ fuel (.initial input)).outcome = some outcome) ↔
        ∃ fuel, (Machine.run ⟨quiet, sink⟩ fuel (.initial input)).outcome = some outcome) ∧
      ∀ fuel fewer, (Machine.run ⟨code, sink⟩ fuel (.initial input)).outcome = some outcome →
        (Machine.run ⟨quiet, sink⟩ fewer (.initial input)).outcome = some outcome →
        Alike (Machine.run ⟨quiet, sink⟩ fewer (.initial input)).state
            (Machine.run ⟨code, sink⟩ fuel (.initial input)).state ∧
          Machine.linesTaken ⟨quiet, sink⟩ fewer input =
            Machine.linesTaken ⟨code, sink⟩ fuel input := by
  refine ⟨code.quiet, load_quiet loaded, fun sink input outcome => ?_⟩
  have counted := counted_of_load loaded
  refine ⟨@ends_quiet_iff ⟨code, sink⟩ (.initial input) counted outcome, ?_⟩
  intro fuel fewer ended endedToo
  constructor
  · have same := @ended_quiet ⟨code, sink⟩ (.initial input) counted Unit (fun _ _ => ())
      (fun _ _ _ => rfl) fuel fewer () outcome outcome ended endedToo
    have moved := congrArg Ended.state same
    exact moved ▸ quiet_alike code _
  · rw [← outcome_of_watched (fun lines _ => countLine lines) fuel (.initial input) 0] at ended
    rw [← outcome_of_watched (fun lines _ => countLine lines) fewer (.initial input) 0] at endedToo
    have same := @ended_quiet ⟨code, sink⟩ (.initial input) counted Nat countLine
      (fun lines _ debug => countLine_of_debug debug lines) fuel fewer 0 outcome outcome ended
      endedToo
    have taken := congrArg Ended.seen same
    exact taken

/-- A program that stops by at its debugging instructions before, behind and inside of a
call. -/
def noisy : Program :=
  ⟨[⟨1, .dprint, [⟨.literal .int, "1"⟩]⟩, ⟨2, .call, [⟨.label, "f"⟩]⟩, ⟨3, .breakpoint, []⟩,
    ⟨4, .exit, [⟨.literal .int, "3"⟩]⟩, ⟨5, .label, [⟨.label, "f"⟩]⟩, ⟨6, .breakpoint, []⟩,
    ⟨7, .ret, []⟩]⟩

/-- The same program once it is loaded. -/
def noisyCode : Code := ⟨noisy.instructions, ⟨[("f", 5)]⟩⟩

theorem noisy_ends_quietly :
    Code.load noisy = .ok noisyCode ∧
    (Machine.run ⟨noisyCode, .accepting⟩ 9 (.initial {})).outcome = some (.exited 3) ∧
    ∃ quiet, Code.load noisy.quiet = .ok quiet ∧
      ∃ fuel, (Machine.run ⟨quiet, .accepting⟩ fuel (.initial {})).outcome = some (.exited 3) := by
  have loaded : Code.load noisy = .ok noisyCode := load_of_listed rfl rfl rfl
  have ended : (Machine.run ⟨noisyCode, .accepting⟩ 9 (.initial {})).outcome =
      some (.exited 3) := by
    decide +kernel
  obtain ⟨quiet, loads, runs⟩ := debugging_is_inert loaded
  exact ⟨loaded, ended, quiet, loads, (runs .accepting {} _).1.mp ⟨9, ended⟩⟩

end Engine

end Framecode
