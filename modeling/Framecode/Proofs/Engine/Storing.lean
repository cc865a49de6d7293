import Framecode.Proofs.Engine.Failures
import Framecode.Proofs.Engine.Variables

/-! Instructions that compute a value and store it. The value comes from the values of the
operands, or a fault does; only then is the target looked up. So an instruction on given values
has one answer, in whatever state and program it is executed. -/
namespace Framecode.Engine

namespace Frames

variable {frames : Frames} {arg : Argument} {value : Value}

theorem intOf_of_value {number : Int64} (valued : frames.valueOf arg = .ok (.int number)) :
    frames.intOf arg = .ok number :=
  bind_ok_iff.mpr ⟨_, valued, rfl⟩

theorem textOf_of_value {text : String} (valued : frames.valueOf arg = .ok (.string text)) :
    frames.textOf arg = .ok text :=
  bind_ok_iff.mpr ⟨_, valued, rfl⟩

theorem intOf_of_other (valued : frames.valueOf arg = .ok value) (other : value.type ≠ .int) :
    frames.intOf arg = .error (.typeMismatch .int value.type) := by
  refine bind_error_iff.mpr (.inr ⟨value, valued, ?_⟩)
  cases value with
  | int number => exact absurd rfl other
  | bool | string | nil => rfl

end Frames

/-- A machine in a state in which the next instruction has a target and then operands. -/
structure Turn (opcode : Opcode) where
  machine : Machine
  state : State
  order : UInt32
  target : Argument
  operands : List Argument
  fetched : machine.code.fetch? state.next = some ⟨order, opcode, target :: operands⟩

namespace Turn

variable {opcode : Opcode}

/-- The next instruction. -/
def instruction (turn : Turn opcode) : Instruction :=
  ⟨turn.order, opcode, turn.target :: turn.operands⟩

/-- The operands have given values. -/
def Takes (turn : Turn opcode) (values : List Value) : Prop :=
  turn.operands.map turn.state.frames.valueOf = values.map .ok

/-- The target is a variable that is declared. -/
def Targets (turn : Turn opcode) (var : VarRef) : Prop :=
  turn.state.frames.targetOf turn.target = .ok var

/-- The run goes on behind the instruction, and a variable holds a value; nothing else has
changed. -/
def Stores (turn : Turn opcode) (var : VarRef) (value : Value) : Prop :=
  turn.machine.step turn.state = .running { turn.state with
    frames := turn.state.frames.setSlot var (some value)
    next := turn.state.next + 1 } ∧
  (turn.state.frames.setSlot var (some value)).contents var = .ok (some value)

/-- The run is over with a fault at the instruction, and nothing has changed. -/
def FailsWith (turn : Turn opcode) (cause : Cause) : Prop :=
  turn.machine.step turn.state =
    .finished (.failed ⟨turn.order, cause⟩) { turn.state with next := turn.state.next + 1 }

/-- The instruction computes a formula. -/
structure Computes (turn : Turn opcode) (formula : Formula) : Prop where
  found : operation? turn.instruction = some (.store turn.target formula)

private theorem takes_one_iff {turn : Turn opcode} {value : Value} :
    turn.Takes [value] ↔
      ∃ source, turn.operands = [source] ∧ turn.state.frames.valueOf source = .ok value := by
  simp [Takes, List.map_eq_cons_iff]

theorem takes_two_iff {turn : Turn opcode} {left right : Value} :
    turn.Takes [left, right] ↔ ∃ first second, turn.operands = [first, second] ∧
      turn.state.frames.valueOf first = .ok left ∧
      turn.state.frames.valueOf second = .ok right := by
  simp [Takes, List.map_eq_cons_iff]

variable {turn : Turn opcode} {formula : Formula} {var : VarRef} {value : Value} {cause : Cause}

private theorem effect_of_computes (computes : turn.Computes formula) :
    turn.machine.effect turn.state turn.instruction =
      turn.machine.plan turn.state (.store turn.target formula) := by
  rw [Machine.effect, computes.found]

private theorem fetched_of_computes (computes : turn.Computes formula) :
    turn.state.fetched turn.instruction = { turn.state with next := turn.state.next + 1 } := by
  have untaken : takesLine turn.instruction = false := by
    rw [takesLine, computes.found]
  simp [State.fetched, untaken]

private theorem stores_of_computes (computes : turn.Computes formula)
    (valued : formula.value turn.state.frames = .ok value) (targeted : turn.Targets var) :
    turn.Stores var value := by
  have planned : Planned turn.machine turn.state (.store turn.target formula) (.store var value) :=
    .store valued targeted
  refine ⟨step_running_iff.mpr ?_, (Frames.contents_of_target targeted _).2⟩
  refine ⟨turn.instruction, _, _, turn.fetched, computes.found, planned, fun _ => nofun, ?_⟩
  rw [fetched_of_computes computes]
  rfl

private theorem failsWith_of_effect (computes : turn.Computes formula)
    (refused : turn.machine.effect turn.state turn.instruction = .error cause) :
    turn.FailsWith cause := by
  rw [FailsWith, step_failed_iff]
  exact ⟨turn.instruction, turn.fetched, refused, rfl, (fetched_of_computes computes).symm⟩

/-- A formula without a value is the fault, whatever the target is. -/
theorem failsWith_of_formula (computes : turn.Computes formula)
    (refused : formula.value turn.state.frames = .error cause) : turn.FailsWith cause := by
  refine failsWith_of_effect computes ?_
  rw [effect_of_computes computes]
  exact bind_error_iff.mpr (.inl refused)

/-- A target that is not there is the fault of an instruction whose formula has a value. -/
theorem failsWith_of_target (computes : turn.Computes formula)
    (valued : formula.value turn.state.frames = .ok value)
    (missing : turn.state.frames.targetOf turn.target = .error cause) : turn.FailsWith cause := by
  refine failsWith_of_effect computes ?_
  rw [effect_of_computes computes]
  exact bind_error_iff.mpr (.inr ⟨value, valued, bind_error_iff.mpr (.inl missing)⟩)

end Turn

/-- An instruction on operands that have values, to be stored in a declared variable. -/
structure Application (opcode : Opcode) (values : List Value) extends Turn opcode where
  var : VarRef
  taken : toTurn.Takes values
  targeted : toTurn.Targets var

namespace Application

variable {opcode : Opcode} {values : List Value} {formula : Formula}

/-- What becomes of an instruction: the value that it stores, or the cause of its fault. -/
def Answers (app : Application opcode values) : Except Cause Value → Prop
  | .ok value => app.Stores app.var value
  | .error cause => app.FailsWith cause

private theorem answers_unique {app : Application opcode values} {answer other : Except Cause Value}
    (first : app.Answers answer) (second : app.Answers other) : answer = other := by
  cases answer with
  | error cause =>
    cases other with
    | error otherCause =>
      cases first.symm.trans second
      rfl
    | ok value => cases first.symm.trans second.1
  | ok value =>
    cases other with
    | error cause => cases second.symm.trans first.1
    | ok otherValue =>
      have same := Progress.running.inj (first.1.symm.trans second.1)
      have held := second.2
      rw [← (State.mk.inj same).1, first.2] at held
      cases held
      rfl

/-- An instruction answers with the value of its formula. -/
theorem answers_iff {app : Application opcode values} (computes : app.Computes formula)
    {answer : Except Cause Value} :
    app.Answers answer ↔ formula.value app.state.frames = answer := by
  have answered : app.Answers (formula.value app.state.frames) := by
    cases valued : formula.value app.state.frames with
    | ok value => exact Turn.stores_of_computes computes valued app.targeted
    | error cause => exact Turn.failsWith_of_formula computes valued
  constructor
  · exact answers_unique answered
  · rintro rfl
    exact answered

/-- With one operand, the answer is what the formula makes of the value. -/
theorem answers_one_iff {value : Value} {app : Application opcode [value]}
    {formula : Argument → Formula} {result answer : Except Cause Value}
    (computes : ∀ order target source,
      operation? ⟨order, opcode, [target, source]⟩ = some (.store target (formula source)))
    (valued : ∀ (frames : Frames) source, frames.valueOf source = .ok value →
      (formula source).value frames = result) :
    app.Answers answer ↔ result = answer := by
  obtain ⟨source, one, holds⟩ := Turn.takes_one_iff.mp app.taken
  have found : app.Computes (formula source) := by
    refine ⟨?_⟩
    rw [Turn.instruction, one]
    exact computes _ _ _
  rw [answers_iff found, valued _ _ holds]

/-- With two operands, the answer is what the formula makes of the values. -/
theorem answers_two_iff {left right : Value} {app : Application opcode [left, right]}
    {formula : Argument → Argument → Formula} {result answer : Except Cause Value}
    (computes : ∀ order target first second, operation? ⟨order, opcode, [target, first, second]⟩ =
      some (.store target (formula first second)))
    (valued : ∀ (frames : Frames) first second, frames.valueOf first = .ok left →
      frames.valueOf second = .ok right → (formula first second).value frames = result) :
    app.Answers answer ↔ result = answer := by
  obtain ⟨first, second, two, leftHolds, rightHolds⟩ := Turn.takes_two_iff.mp app.taken
  have found : app.Computes (formula first second) := by
    refine ⟨?_⟩
    rw [Turn.instruction, two]
    exact computes _ _ _ _
  rw [answers_iff found, valued _ _ _ leftHolds rightHolds]

end Application

end Framecode.Engine
