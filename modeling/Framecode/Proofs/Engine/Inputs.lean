import Framecode.Proofs.Engine.Failures
import Framecode.Proofs.Engine.Lines
import Framecode.Proofs.Engine.Positions
import Framecode.Proofs.Engine.Runs
import Framecode.Proofs.Engine.Variables

/-! What a run makes of its input. Every READ looks at one line and takes it off, so the
first READ of a run gets the first line, the second READ the second one, and so on, whatever
types they ask for. A run on another input that starts with the same lines goes through the
same steps until it has read them all. -/
namespace Framecode.Engine

/-! ## Another input -/

/-- A state with another input. -/
def State.withInput (state : State) (input : Input) : State := { state with input }

/-- A step with another input behind it. -/
def Progress.withInput (input : Input) : Progress → Progress
  | .running state => .running (state.withInput input)
  | .finished outcome state => .finished outcome (state.withInput input)

/-- The end of a run with another input behind it. -/
def Ended.withInput {σ : Type} (input : Input) (ended : Ended σ) : Ended σ :=
  { ended with state := ended.state.withInput input }

/-- The input behind an instruction, which may have taken a line. -/
def inputBehind (instr : Instruction) (input : Input) : Input :=
  if takesLine instr then input.rest else input

/-- The number of lines that an instruction takes. -/
def linesOf (instr : Instruction) : Nat := if takesLine instr then 1 else 0

variable {machine : Machine} {state next : State} {instr : Instruction} {other : Input}

private theorem rawLines_behind (instr : Instruction) (input : Input) :
    (inputBehind instr input).rawLines = input.rawLines.drop (linesOf instr) := by
  unfold inputBehind linesOf
  split
  · rw [Input.rawLines_rest, List.drop_one]
  · rfl

/-- An instruction looks at the first line of the input if it takes it, and at no other
part of the input. -/
theorem effect_withInput
    (first : takesLine instr = true → other.rawLines.head? = state.input.rawLines.head?) :
    machine.effect (state.withInput other) instr = machine.effect state instr := by
  unfold Machine.effect
  cases found : operation? instr with
  | none => rfl
  | some operation =>
    cases operation with
    | read target type =>
      simp only [Machine.plan]
      cases named : Readable.ofName? type.text with
      | none => rfl
      | some readable =>
        have takes : takesLine instr = true := by simp [takesLine, found, named]
        have same : other.value? readable = state.input.value? readable := by
          rw [Input.value_eq_head, Input.value_eq_head, first takes]
        simp only [State.withInput, same]
    | _ => rfl

private theorem apply_withInput (state : State) (effect : Effect) (input : Input) :
    (state.withInput input).apply effect = (state.apply effect).withInput input := by
  cases effect <;> rfl

@[simp] theorem apply_input (state : State) (effect : Effect) :
    (state.apply effect).input = state.input := by
  cases effect <;> rfl

/-- A step is the same on another input, if it takes the same line or none. -/
theorem step_withInput (fetched : machine.code.fetch? state.next = some instr)
    (first : takesLine instr = true → other.rawLines.head? = state.input.rawLines.head?) :
    machine.step (state.withInput other) =
      (machine.step state).withInput (inputBehind instr other) := by
  have position : (state.withInput other).next = state.next := rfl
  have behind : (state.withInput other).fetched instr =
      (state.fetched instr).withInput (inputBehind instr other) := rfl
  unfold Machine.step
  rw [position, fetched]
  simp only [effect_withInput first, behind, apply_withInput]
  cases machine.effect state instr with
  | error cause => rfl
  | ok effect => cases effect <;> rfl

private theorem input_of_running (fetched : machine.code.fetch? state.next = some instr)
    (ran : machine.step state = .running next) : next.input = inputBehind instr state.input := by
  obtain ⟨_, _, _, same, _, _, _, rfl⟩ := step_running_iff.mp ran
  cases fetched.symm.trans same
  rw [apply_input]
  rfl

private theorem input_of_last {outcome : Outcome} {last : State}
    (fetched : machine.code.fetch? state.next = some instr)
    (ran : machine.step state = .finished outcome last) :
    last.input = inputBehind instr state.input := by
  simp only [Machine.step, fetched] at ran
  split at ran <;> cases ran <;> rfl

/-! ## Counting READ instructions -/

/-- An instruction if it is a READ. -/
def readOf (instr : Instruction) : List Instruction := if instr.opcode = .read then [instr] else []

/-- The number of READ instructions that a run executes. -/
def Machine.readsFrom (machine : Machine) (fuel : Nat) (state : State) : Nat :=
  (machine.collect (fun _ => readOf) fuel state).length

private theorem readsFrom_running (fetched : machine.code.fetch? state.next = some instr)
    (ran : machine.step state = .running next) (fuel : Nat) :
    machine.readsFrom (fuel + 1) state = (readOf instr).length + machine.readsFrom fuel next := by
  rw [Machine.readsFrom, collect_running fetched ran, List.length_append, Machine.readsFrom]

private theorem readOf_le_readsFrom (fetched : machine.code.fetch? state.next = some instr)
    (fuel : Nat) : (readOf instr).length ≤ machine.readsFrom (fuel + 1) state := by
  cases ran : machine.step state with
  | running next =>
    rw [readsFrom_running fetched ran]
    exact Nat.le_add_right _ _
  | finished outcome last =>
    have only : machine.readsFrom (fuel + 1) state = (readOf instr).length := by
      rw [Machine.readsFrom, collect_finished fetched ran]
    exact Nat.le_of_eq only.symm

/-- Only a READ takes a line. -/
theorem linesOf_le_readOf (instr : Instruction) : linesOf instr ≤ (readOf instr).length := by
  unfold linesOf
  split
  · rename_i takes
    rw [readOf, if_pos (takesLine_read takes).1]
    exact Nat.le_refl 1
  · exact Nat.zero_le _

/-- A READ that succeeds takes a line, and its target holds the value that it has read
there, or nil. -/
theorem step_read (fetched : machine.code.fetch? state.next = some instr)
    (reading : instr.opcode = .read) (ran : machine.step state = .running next) :
    ∃ target type readable var, instr.args = [target, type] ∧
      Readable.ofName? type.text = some readable ∧ target.varRef = .ok var ∧
      takesLine instr = true ∧
      next.frames.contents var = .ok (some ((state.input.value? readable).getD .nil)) := by
  obtain ⟨_, operation, effect, same, found, planned, _, rfl⟩ := step_running_iff.mp ran
  cases fetched.symm.trans same
  have counted := counted_of_operation found
  obtain ⟨order, opcode, args⟩ := instr
  cases reading
  obtain ⟨target, type, rfl⟩ := List.length_eq_two.mp counted
  cases found
  cases planned with
  | @read _ _ readable var named targeted =>
    obtain ⟨spelt, holds⟩ := Frames.contents_of_target targeted
      (some ((state.input.value? readable).getD .nil))
    have takes : takesLine ⟨order, .read, [target, type]⟩ = true := by
      simp [takesLine, operation?, named]
    exact ⟨target, type, readable, var, rfl, named, spelt, takes, holds⟩

private theorem linesOf_of_running (fetched : machine.code.fetch? state.next = some instr)
    (ran : machine.step state = .running next) : linesOf instr = (readOf instr).length := by
  by_cases reading : instr.opcode = .read
  · obtain ⟨_, _, _, _, _, _, _, takes, _⟩ := step_read fetched reading ran
    rw [linesOf, readOf, if_pos takes, if_pos reading]
    rfl
  · have untaken : ¬ takesLine instr = true := fun takes => reading (takesLine_read takes).1
    rw [linesOf, readOf, if_neg untaken, if_neg reading]
    rfl

/-! ## Runs -/

/-- As long as a run goes on, what is left of its input is all lines but as many as READ
instructions were executed. -/
theorem rawLines_after {steps : Nat} (goes : (machine.run steps state).outcome = none) :
    (machine.after steps state).input.rawLines =
      state.input.rawLines.drop (machine.readsFrom steps state) := by
  induction steps generalizing state with
  | zero => rfl
  | succ steps ih =>
    cases ran : machine.step state with
    | finished outcome last =>
      rw [run_finished ran] at goes
      cases goes
    | running next =>
      obtain ⟨instr, _, _, fetched, _⟩ := step_running_iff.mp ran
      rw [run_running ran] at goes
      rw [after_running ran, ih goes, input_of_running fetched ran, rawLines_behind,
        linesOf_of_running fetched ran, List.drop_drop, readsFrom_running fetched ran]

/-- Lists that start alike start alike behind their first items too. -/
theorem agree_behind {α : Type} {left right : List α} {limit taken : Nat}
    (agree : left.take limit = right.take limit) (within : taken ≤ limit) :
    left.take taken = right.take taken ∧
      (left.drop taken).take (limit - taken) = (right.drop taken).take (limit - taken) := by
  constructor
  · have short := congrArg (List.take taken) agree
    rwa [List.take_take, List.take_take, Nat.min_eq_left within] at short
  · rw [← List.drop_take, ← List.drop_take, agree]

/-- A run on another input that starts with the same lines goes through the same steps as
long as it executes no more READ instructions than these lines, and then it has taken the
same lines off. -/
theorem runWatched_withInput {σ : Type} {watch : σ → Instruction → σ} {limit fuel : Nat}
    (agree : state.input.rawLines.take limit = other.rawLines.take limit)
    (few : machine.readsFrom fuel state ≤ limit) (seen : σ) :
    ∃ left consumed,
      machine.runWatched (fun seen _ => watch seen) fuel (state.withInput other) seen =
        (machine.runWatched (fun seen _ => watch seen) fuel state seen).withInput left ∧
      consumed.length ≤ machine.readsFrom fuel state ∧
      state.input.rawLines = consumed ++
        (machine.runWatched (fun seen _ => watch seen) fuel state seen).state.input.rawLines ∧
      other.rawLines = consumed ++ left.rawLines := by
  induction fuel generalizing state other limit seen with
  | zero => exact ⟨other, [], rfl, Nat.zero_le _, rfl, rfl⟩
  | succ fuel ih =>
    cases fetched : machine.code.fetch? state.next with
    | none =>
      have ran := step_completed_iff.mpr ⟨fetched, rfl⟩
      have ranToo : machine.step (state.withInput other) =
          .finished .completed (state.withInput other) := step_completed_iff.mpr ⟨fetched, rfl⟩
      rw [runWatched_finished ran, runWatched_finished ranToo]
      exact ⟨other, [], rfl, Nat.zero_le _, rfl, rfl⟩
    | some instr =>
      have counted := readOf_le_readsFrom fetched fuel
      have atMost := linesOf_le_readOf instr
      obtain ⟨same, behind⟩ := agree_behind agree (by omega : linesOf instr ≤ limit)
      have length := List.length_take_le (linesOf instr) state.input.rawLines
      have first : takesLine instr = true →
          other.rawLines.head? = state.input.rawLines.head? := by
        intro takes
        have heads := congrArg List.head? same
        rw [linesOf, if_pos takes, List.head?_take, List.head?_take] at heads
        exact heads.symm
      have ranToo := @step_withInput machine state instr other fetched first
      have noted : machine.observe (fun seen _ => watch seen) (state.withInput other) seen =
        machine.observe (fun seen _ => watch seen) state seen := rfl
      cases ran : machine.step state with
      | finished outcome last =>
        rw [ran] at ranToo
        rw [runWatched_finished ran, runWatched_finished ranToo, noted]
        refine ⟨inputBehind instr other, state.input.rawLines.take (linesOf instr), rfl, by omega,
          ?_, ?_⟩
        · rw [input_of_last fetched ran, rawLines_behind, List.take_append_drop]
        · rw [rawLines_behind, same, List.take_append_drop]
      | running next =>
        rw [ran] at ranToo
        have left := input_of_running fetched ran
        rw [readsFrom_running fetched ran] at few ⊢
        have agreeBehind : next.input.rawLines.take (limit - linesOf instr) =
            (inputBehind instr other).rawLines.take (limit - linesOf instr) := by
          rw [left, rawLines_behind, rawLines_behind]
          exact behind
        obtain ⟨rest, consumed, runs, fewer, here, there⟩ := ih agreeBehind (by omega)
          (machine.observe (fun seen _ => watch seen) state seen)
        refine ⟨rest, state.input.rawLines.take (linesOf instr) ++ consumed, ?_, ?_, ?_, ?_⟩
        · rw [runWatched_running ran, runWatched_running ranToo, noted, runs]
        · rw [List.length_append]
          omega
        · rw [runWatched_running ran, List.append_assoc, ← here, left, rawLines_behind,
            List.take_append_drop]
        · rw [List.append_assoc, ← there, rawLines_behind, same, List.take_append_drop]

/-- A run depends only on the lines that it reads. On another input that starts with the same
lines, a run that executes no more READ instructions than these lines comes to the same
outcome, if to any, and leaves everything the same but the input behind the lines that both
have taken off. The READ instructions of a run get the lines one by one: whatever the types
that they ask for, each one gets the line with its own number, and the next one is left for
the next READ. -/
theorem run_depends_on_lines_read (machine : Machine) (input : Input) :
    (∀ other limit fuel, input.rawLines.take limit = other.rawLines.take limit →
      machine.readsFrom fuel (.initial input) ≤ limit →
      (machine.run fuel (.initial other)).outcome = (machine.run fuel (.initial input)).outcome ∧
      ∃ left consumed, (machine.run fuel (.initial other)).state =
          { (machine.run fuel (.initial input)).state with input := left } ∧
        consumed.length ≤ limit ∧
        input.rawLines = consumed ++ (machine.run fuel (.initial input)).state.input.rawLines ∧
        other.rawLines = consumed ++ left.rawLines) ∧
    ∀ steps instr next, (machine.run steps (.initial input)).outcome = none →
      machine.code.fetch? (machine.after steps (.initial input)).next = some instr →
      instr.opcode = .read →
      machine.step (machine.after steps (.initial input)) = .running next →
      ∃ target type readable var, instr.args = [target, type] ∧
        Readable.ofName? type.text = some readable ∧ target.varRef = .ok var ∧
        next.frames.contents var = .ok (some
          ((input.rawLines[machine.readsFrom steps (.initial input)]?.bind
            (Input.lineValue? readable)).getD .nil)) ∧
        next.input.rawLines =
          input.rawLines.drop (machine.readsFrom steps (.initial input) + 1) := by
  constructor
  · intro other limit fuel agree few
    obtain ⟨left, consumed, runs, length, here, there⟩ :=
      @runWatched_withInput machine (.initial input) other Unit (fun _ _ => ()) limit fuel agree
        few ()
    have outcomes := congrArg Ended.outcome runs
    have states := congrArg Ended.state runs
    exact ⟨outcomes, left, consumed, states, Nat.le_trans length few, here, there⟩
  · intro steps instr next goes fetched reading ran
    obtain ⟨target, type, readable, var, args, named, spelt, takes, holds⟩ :=
      step_read fetched reading ran
    have lines := rawLines_after goes
    refine ⟨target, type, readable, var, args, named, spelt, ?_, ?_⟩
    · rw [holds, Input.value_eq_head, lines, List.head?_drop]
      rfl
    · rw [input_of_running fetched ran, rawLines_behind, lines, List.drop_drop, linesOf,
        if_pos takes]
      rfl

/-- A program that reads a truth value, then a number into the same variable, and exits
with it. -/
def rereading : Program :=
  ⟨[⟨1, .defVar, [⟨.var, "GF@x"⟩]⟩, ⟨2, .read, [⟨.var, "GF@x"⟩, ⟨.typeName, "bool"⟩]⟩,
    ⟨3, .read, [⟨.var, "GF@x"⟩, ⟨.typeName, "int"⟩]⟩, ⟨4, .exit, [⟨.var, "GF@x"⟩]⟩]⟩

/-- The machine that runs it. -/
def rereadingMachine : Machine := ⟨⟨rereading.instructions, {}⟩, .accepting⟩

theorem second_read_gets_second_line :
    let input : Input := ⟨[53, 10, 55, 10, 57]⟩
    let other : Input := ⟨[53, 10, 55, 10, 255, 10, 10]⟩
    Code.load rereading = .ok rereadingMachine.code ∧
    input.rawLines.take 2 = other.rawLines.take 2 ∧
    rereadingMachine.readsFrom 4 (.initial input) = 2 ∧
    (rereadingMachine.run 4 (.initial other)).outcome = some (.exited 7) ∧
    rereadingMachine.step (rereadingMachine.after 2 (.initial input)) =
      .running (rereadingMachine.after 3 (.initial input)) ∧
    (rereadingMachine.after 3 (.initial input)).frames.contents ⟨.globalFrame, "x"⟩ =
      .ok (some (.int 7)) ∧
    (rereadingMachine.after 3 (.initial input)).input.rawLines = [[57]] := by
  intro input other
  have loaded : Code.load rereading = .ok rereadingMachine.code := load_of_listed rfl rfl rfl
  have agree : input.rawLines.take 2 = other.rawLines.take 2 := rfl
  have reads : rereadingMachine.readsFrom 4 (.initial input) = 2 := by decide +kernel
  have earlier : rereadingMachine.readsFrom 2 (.initial input) = 1 := by decide +kernel
  have ended : (rereadingMachine.run 4 (.initial input)).outcome = some (.exited 7) := by
    decide +kernel
  have ran : rereadingMachine.step (rereadingMachine.after 2 (.initial input)) =
      .running (rereadingMachine.after 3 (.initial input)) := by
    decide +kernel
  obtain ⟨others, numbered⟩ := run_depends_on_lines_read rereadingMachine input
  obtain ⟨outcomes, _⟩ := others other 2 4 agree (Nat.le_of_eq reads)
  obtain ⟨target, type, readable, var, args, named, spelt, holds, left⟩ :=
    numbered 2 _ _ (by decide +kernel) rfl rfl ran
  cases args
  cases named
  cases spelt
  rw [earlier] at holds left
  refine ⟨loaded, agree, reads, outcomes.trans ended, ran, holds.trans ?_, left⟩
  decide +kernel

end Framecode.Engine
