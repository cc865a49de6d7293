import Framecode.Engine.Run
import Framecode.Proofs.Results

/-! What one step of a run can do, and which states a run reaches. The checks of an
operation and the effect they end in are stated once as a relation, so a property
of runs is a case distinction over effects and an induction over single steps. -/
namespace Framecode.Engine

/-- The effects that an operation can have in a state, each with the checks that
lead to it. A branch has one effect when it is taken and another when it is not. -/
inductive Planned (machine : Machine) (state : State) : Operation → Effect → Prop where
  | store {target : Argument} {formula : Formula} {var : VarRef} {value : Value}
      (computed : formula.value state.frames = .ok value)
      (targeted : state.frames.targetOf target = .ok var) :
      Planned machine state (.store target formula) (.store var value)
  | read {target type : Argument} {readable : Readable} {var : VarRef}
      (named : Readable.ofName? type.text = some readable)
      (targeted : state.frames.targetOf target = .ok var) :
      Planned machine state (.read target type)
        (.store var ((state.input.value? readable).getD .nil))
  | define {target : Argument} {var : VarRef} (named : Frames.variableOf target = .ok var)
      (fresh : state.frames.checkFresh var = .ok ()) :
      Planned machine state (.define target) (.declare var)
  | createFrame : Planned machine state .createFrame .createFrame
  | pushFrame {frames : Frames} (pushed : state.frames.push = .ok frames) :
      Planned machine state .pushFrame .pushFrame
  | popFrame {frames : Frames} (popped : state.frames.pop = .ok frames) :
      Planned machine state .popFrame .popFrame
  | push {source : Argument} {value : Value} (valued : state.frames.valueOf source = .ok value) :
      Planned machine state (.push source) (.push value)
  | pop {target : Argument} {var : VarRef} {value : Value}
      (targeted : state.frames.targetOf target = .ok var) (held : state.data.top? = some value) :
      Planned machine state (.pop target) (.popTo var value)
  | write {source : Argument} {value : Value} (valued : state.frames.valueOf source = .ok value)
      (accepted : machine.sink.refusal state.written value.display = none) :
      Planned machine state (.write source) (.write value.display)
  | label : Planned machine state .label .none
  | jump {label : String} {target : Nat} (found : machine.code.labels.position? label = some target) :
      Planned machine state (.jump label) (.jump target)
  | taken {onEqual : Bool} {label : String} {target : Nat} {left right : Argument}
      {leftValue rightValue : Value} (found : machine.code.labels.position? label = some target)
      (leftValued : state.frames.valueOf left = .ok leftValue)
      (rightValued : state.frames.valueOf right = .ok rightValue)
      (compared : equality leftValue rightValue = .ok onEqual) :
      Planned machine state (.branch onEqual label left right) (.jump target)
  | passed {onEqual : Bool} {label : String} {target : Nat} {left right : Argument}
      {leftValue rightValue : Value} (found : machine.code.labels.position? label = some target)
      (leftValued : state.frames.valueOf left = .ok leftValue)
      (rightValued : state.frames.valueOf right = .ok rightValue)
      (compared : equality leftValue rightValue = .ok (!onEqual)) :
      Planned machine state (.branch onEqual label left right) .none
  | call {label : String} {target : Nat} (found : machine.code.labels.position? label = some target) :
      Planned machine state (.call label) (.call target)
  | ret {target : Nat} (pending : state.calls.top? = some target) :
      Planned machine state .ret (.ret target)
  | exit {source : Argument} {value : Value} {status : Nat}
      (valued : state.frames.valueOf source = .ok value) (allowed : exitStatus value = .ok status) :
      Planned machine state (.exit source) (.stop status)
  | dprint {shown : Argument} : Planned machine state (.dprint shown) .none
  | breakpoint : Planned machine state .breakpoint .none

private theorem position_ok_iff {machine : Machine} {label : String} {target : Nat} :
    machine.positionOf label = .ok target ↔
      machine.code.labels.position? label = some target := by
  unfold Machine.positionOf
  split <;> simp_all

private theorem plan_branch_ok_iff {machine : Machine} {state : State} {onEqual : Bool}
    {label : String}
    {left right : Argument} {effect : Effect} :
    machine.plan state (.branch onEqual label left right) = .ok effect ↔
      ∃ target leftValue rightValue equal, machine.code.labels.position? label = some target ∧
        state.frames.valueOf left = .ok leftValue ∧ state.frames.valueOf right = .ok rightValue ∧
        equality leftValue rightValue = .ok equal ∧
        effect = if equal = onEqual then .jump target else .none := by
  simp only [Machine.plan, bind_ok_iff, position_ok_iff, pure, Except.pure, Except.ok.injEq, beq_iff_eq]
  constructor
  · rintro ⟨target, found, leftValue, leftValued, rightValue, rightValued, equal, compared, rfl⟩
    exact ⟨target, leftValue, rightValue, equal, found, leftValued, rightValued, compared, rfl⟩
  · rintro ⟨target, leftValue, rightValue, equal, found, leftValued, rightValued, compared, rfl⟩
    exact ⟨target, found, leftValue, leftValued, rightValue, rightValued, equal, compared, rfl⟩

/-- The checks of an operation end in an effect exactly when the relation has it. -/
theorem plan_ok_iff {machine : Machine} {state : State} {operation : Operation} {effect : Effect} :
    machine.plan state operation = .ok effect ↔ Planned machine state operation effect := by
  constructor
  · intro planned
    cases operation with
    | store target formula =>
      simp only [Machine.plan, bind_ok_iff] at planned
      obtain ⟨value, computed, var, targeted, same⟩ := planned
      cases same
      exact .store computed targeted
    | read target type =>
      simp only [Machine.plan] at planned
      split at planned
      · rename_i named
        obtain ⟨var, targeted, same⟩ := bind_ok_iff.mp planned
        cases same
        exact .read named targeted
      · cases planned
    | define target =>
      simp only [Machine.plan, bind_ok_iff] at planned
      obtain ⟨var, named, _, fresh, same⟩ := planned
      cases same
      exact .define named fresh
    | createFrame => cases planned; exact .createFrame
    | pushFrame =>
      obtain ⟨frames, pushed, same⟩ := bind_ok_iff.mp planned
      cases same
      exact .pushFrame pushed
    | popFrame =>
      obtain ⟨frames, popped, same⟩ := bind_ok_iff.mp planned
      cases same
      exact .popFrame popped
    | push source =>
      obtain ⟨value, valued, same⟩ := bind_ok_iff.mp planned
      cases same
      exact .push valued
    | pop target =>
      obtain ⟨var, targeted, rest⟩ := bind_ok_iff.mp planned
      split at rest
      · rename_i held
        cases rest
        exact .pop targeted held
      · cases rest
    | write source =>
      obtain ⟨value, valued, rest⟩ := bind_ok_iff.mp planned
      simp only at rest
      split at rest
      · cases rest
      · rename_i accepted
        cases rest
        exact .write valued accepted
    | label => cases planned; exact .label
    | jump label =>
      obtain ⟨target, found, same⟩ := bind_ok_iff.mp planned
      cases same
      exact .jump (position_ok_iff.mp found)
    | branch onEqual label left right =>
      obtain ⟨target, leftValue, rightValue, equal, found, leftValued, rightValued, compared, rfl⟩ :=
        plan_branch_ok_iff.mp planned
      split
      · rename_i same
        exact .taken found leftValued rightValued (same ▸ compared)
      · rename_i different
        exact .passed found leftValued rightValued (Bool.eq_not_of_ne different ▸ compared)
    | call label =>
      obtain ⟨target, found, same⟩ := bind_ok_iff.mp planned
      cases same
      exact .call (position_ok_iff.mp found)
    | ret =>
      simp only [Machine.plan] at planned
      split at planned
      · rename_i pending
        cases planned
        exact .ret pending
      · cases planned
    | exit source =>
      simp only [Machine.plan, bind_ok_iff] at planned
      obtain ⟨value, valued, status, allowed, same⟩ := planned
      cases same
      exact .exit valued allowed
    | dprint shown => cases planned; exact .dprint
    | breakpoint => cases planned; exact .breakpoint
  · intro planned
    cases planned with
    | store computed targeted => simp [Machine.plan, bind_ok_iff, computed, targeted, pure, Except.pure]
    | read named targeted => simp [Machine.plan, bind_ok_iff, named, targeted, pure, Except.pure]
    | define named fresh => simp [Machine.plan, bind_ok_iff, named, fresh, pure, Except.pure]
    | createFrame => rfl
    | pushFrame pushed => simp [Machine.plan, bind_ok_iff, pushed, pure, Except.pure]
    | popFrame popped => simp [Machine.plan, bind_ok_iff, popped, pure, Except.pure]
    | push valued => simp [Machine.plan, bind_ok_iff, valued, pure, Except.pure]
    | pop targeted held => simp [Machine.plan, bind_ok_iff, targeted, held, pure, Except.pure]
    | write valued accepted => simp [Machine.plan, bind_ok_iff, valued, accepted, pure, Except.pure]
    | label => rfl
    | jump found => simp [Machine.plan, bind_ok_iff, position_ok_iff, found, pure, Except.pure]
    | taken found leftValued rightValued compared =>
      exact plan_branch_ok_iff.mpr ⟨_, _, _, _, found, leftValued, rightValued, compared, by simp⟩
    | passed found leftValued rightValued compared =>
      exact plan_branch_ok_iff.mpr ⟨_, _, _, _, found, leftValued, rightValued, compared, by simp⟩
    | call found => simp [Machine.plan, bind_ok_iff, position_ok_iff, found, pure, Except.pure]
    | ret pending => simp [Machine.plan, pending, pure, Except.pure]
    | exit valued allowed => simp [Machine.plan, bind_ok_iff, valued, allowed, pure, Except.pure]
    | dprint => rfl
    | breakpoint => rfl

/-- An instruction has an effect exactly when it has an operation and the checks of
that operation end in the effect. -/
theorem effect_ok_iff {machine : Machine} {state : State} {instr : Instruction} {effect : Effect} :
    machine.effect state instr = .ok effect ↔
      ∃ operation, operation? instr = some operation ∧ Planned machine state operation effect := by
  unfold Machine.effect
  cases found : operation? instr with
  | none => simp
  | some operation => simp [plan_ok_iff]

/-- A step that the run goes on after fetches an instruction and applies an effect of
it that does not stop the run. -/
theorem step_running_iff {machine : Machine} {state next : State} :
    machine.step state = .running next ↔
      ∃ instr operation effect, machine.code.fetch? state.next = some instr ∧
        operation? instr = some operation ∧ Planned machine state operation effect ∧
        (∀ status, effect ≠ .stop status) ∧ next = (state.fetched instr).apply effect := by
  unfold Machine.step
  cases fetched : machine.code.fetch? state.next with
  | none => simp
  | some instr =>
    constructor
    · intro ran
      simp only at ran
      split at ran
      · cases ran
      · cases ran
      · rename_i effect notStop planned
        cases ran
        obtain ⟨operation, found, plan⟩ := effect_ok_iff.mp planned
        exact ⟨instr, operation, effect, rfl, found, plan, notStop, rfl⟩
    · rintro ⟨_, operation, effect, same, found, plan, notStop, rfl⟩
      cases same
      have planned := effect_ok_iff.mpr ⟨operation, found, plan⟩
      simp only [planned]

/-- A run is complete exactly when there is no instruction to fetch, and it leaves
the state as it is. -/
theorem step_completed_iff {machine : Machine} {state last : State} :
    machine.step state = .finished .completed last ↔
      machine.code.fetch? state.next = none ∧ last = state := by
  unfold Machine.step
  cases fetched : machine.code.fetch? state.next with
  | none => simp [eq_comm]
  | some instr =>
    simp only [reduceCtorEq, false_and, iff_false]
    intro ran
    split at ran <;> cases ran

/-- The states that a run on some input is in before it fetches: the initial one, and
every one that a step leads to from such a state. -/
inductive Reached (machine : Machine) (input : Input) : State → Prop where
  | initial : Reached machine input (.initial input)
  | step {state next : State} (before : Reached machine input state)
      (ran : machine.step state = .running next) : Reached machine input next

/-- What holds of the initial state and is kept by every step holds of every state
that a run reaches. -/
theorem reached_induction {machine : Machine} {input : Input} {holds : State → Prop}
    (initial : holds (.initial input))
    (kept : ∀ state next, Reached machine input state → holds state →
      machine.step state = .running next → holds next)
    {state : State} (reached : Reached machine input state) : holds state := by
  induction reached with
  | initial => exact initial
  | step before ran ih => exact kept _ _ before ih ran

/-- A run that starts in a reached state and ends with an outcome ends there by a
step from a reached state, whoever watches it. -/
theorem run_ends_in_step {machine : Machine} {input : Input} {σ : Type}
    {watch : σ → State → Instruction → σ} {fuel : Nat} {state : State} {seen : σ} {outcome : Outcome}
    (reached : Reached machine input state)
    (ended : (machine.runWatched watch fuel state seen).outcome = some outcome) :
    ∃ before, Reached machine input before ∧
      machine.step before = .finished outcome (machine.runWatched watch fuel state seen).state := by
  induction fuel generalizing state seen with
  | zero => simp [Machine.runWatched] at ended
  | succ fuel ih =>
    rw [Machine.runWatched] at ended ⊢
    cases ran : machine.step state with
    | running next =>
      simp only [ran] at ended ⊢
      exact ih (.step reached ran) ended
    | finished found last =>
      simp only [ran, Option.some.injEq] at ended ⊢
      exact ⟨state, reached, ended ▸ ran⟩

end Framecode.Engine
