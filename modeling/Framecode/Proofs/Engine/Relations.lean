import Framecode.Proofs.Engine.Failures
import Framecode.Proofs.Engine.Positions
import Framecode.Proofs.Text.Order

/-! The relational instructions and the conditional jumps. LT, GT and EQ ask about one order
of the values of each type; nil is outside of it, and EQ alone can be asked about nil. What an
instruction answers hangs on the values of its operands only, not on the state or the program
that it stands in, so answers from different runs agree with one another, and a conditional
jump agrees with EQ. -/
namespace Framecode

namespace Value

/-! ## The order of values -/

variable {left right : Value}

private theorem order_none_iff :
    left.order? right = none ↔ left.type ≠ right.type ∨ left = .nil ∨ right = .nil := by
  cases left <;> cases right <;> simp [order?, type]

/-- Values that are in an order are in the opposite one the other way round. -/
theorem order_swap (left right : Value) :
    right.order? left = (left.order? right).map Ordering.swap := by
  cases left <;> cases right <;>
    simp only [order?, Option.map_none, Option.map_some, Option.some.injEq]
  all_goals exact Std.OrientedCmp.eq_swap

/-- Neither of two values is before the other exactly when they are the same. -/
theorem order_eq_iff : left.order? right = some .eq ↔ left = right ∧ left ≠ .nil := by
  cases left <;> cases right <;> simp [order?, Int64.toInt_inj, String.toList_inj]

private theorem order_lt_trans {first second third : Value} (below : first.order? second = some .lt)
    (above : second.order? third = some .lt) : first.order? third = some .lt := by
  cases first <;> cases second <;> cases third <;>
    simp only [order?, Option.some.injEq, reduceCtorEq] at below above ⊢
  all_goals exact Std.TransCmp.lt_trans below above

private theorem equal_none_iff :
    left.equal? right = none ↔ left ≠ .nil ∧ right ≠ .nil ∧ left.type ≠ right.type := by
  cases left <;> cases right <;> simp [equal?, isNil, type]

private theorem equal_some_iff {truth : Bool} :
    left.equal? right = some truth ↔
      (left = .nil ∨ right = .nil ∨ left.type = right.type) ∧ truth = decide (left = right) := by
  cases left <;> cases right <;> simp [equal?, isNil, type, eq_comm]

private theorem equal_symm (left right : Value) : right.equal? left = left.equal? right := by
  cases left <;> cases right <;> simp [equal?, isNil, type, eq_comm]

/-- Where there is an order, equality is being neither before nor behind. -/
theorem equal_of_order {order : Ordering} (ordered : left.order? right = some order) :
    left.equal? right = some (order == .eq) := by
  have comparable : ¬(left.type ≠ right.type ∨ left = .nil ∨ right = .nil) := by
    rw [← order_none_iff, ordered]
    nofun
  push Not at comparable
  refine equal_some_iff.mpr ⟨.inr (.inr comparable.1), ?_⟩
  rw [Bool.eq_iff_iff, beq_iff_eq, decide_eq_true_eq, ← Option.some.injEq, ← ordered, order_eq_iff]
  exact and_iff_left comparable.2.1

end Value

namespace Engine

/-! ## What the relations hold of -/

variable {left right : Value} {truth : Bool} {cause : Cause}

private theorem equality_ok_iff :
    equality left right = .ok truth ↔ left.equal? right = some truth := by
  cases found : left.equal? right <;> simp [equality, found]

private theorem equality_error_iff : equality left right = .error cause ↔
    cause = incomparable left right ∧ left ≠ .nil ∧ right ≠ .nil ∧ left.type ≠ right.type := by
  rw [← Value.equal_none_iff]
  cases found : left.equal? right <;> simp [equality, found, eq_comm]

private theorem inOrder_ok_iff {wanted : Ordering} : inOrder wanted left right = .ok truth ↔
    ∃ order, left.order? right = some order ∧ (order == wanted) = truth := by
  cases found : left.order? right <;> simp [inOrder, found]

private theorem inOrder_error_iff {wanted : Ordering} : inOrder wanted left right = .error cause ↔
    cause = incomparable left right ∧
      (left.type ≠ right.type ∨ left = .nil ∨ right = .nil) := by
  rw [← Value.order_none_iff]
  cases found : left.order? right <;> simp [inOrder, found, eq_comm]

/-- A value is before another one exactly when that one is behind it. -/
theorem inOrder_lt_iff_gt :
    inOrder .lt left right = .ok truth ↔ inOrder .gt right left = .ok truth := by
  simp only [inOrder_ok_iff, Value.order_swap left right, Option.map_eq_some_iff]
  constructor
  · rintro ⟨order, ordered, rfl⟩
    exact ⟨order.swap, ⟨order, ordered, rfl⟩, by cases order <;> rfl⟩
  · rintro ⟨_, ⟨order, ordered, rfl⟩, rfl⟩
    exact ⟨order, ordered, by cases order <;> rfl⟩

private theorem inOrder_lt_trans {first second third : Value}
    (below : inOrder .lt first second = .ok true)
    (above : inOrder .lt second third = .ok true) : inOrder .lt first third = .ok true := by
  simp only [inOrder_ok_iff, beq_iff_eq, exists_eq_right] at below above ⊢
  exact Value.order_lt_trans below above

private theorem equality_symm :
    equality left right = .ok truth ↔ equality right left = .ok truth := by
  rw [equality_ok_iff, equality_ok_iff, Value.equal_symm]

/-! ## Instructions on two values -/

/-- A machine in a state in which the next instruction has two operands, besides the argument
that it starts with, and the operands have values. -/
structure Setting (opcode : Opcode) (left right : Value) where
  machine : Machine
  state : State
  order : UInt32
  subject : Argument
  first : Argument
  second : Argument
  fetched : machine.code.fetch? state.next = some ⟨order, opcode, [subject, first, second]⟩
  firstValued : state.frames.valueOf first = .ok left
  secondValued : state.frames.valueOf second = .ok right

namespace Setting

variable {opcode : Opcode}

/-- The next instruction. -/
def instruction (setting : Setting opcode left right) : Instruction :=
  ⟨setting.order, opcode, [setting.subject, setting.first, setting.second]⟩

/-- The instruction fails for a cause, and the run is over. -/
def FailsWith (setting : Setting opcode left right) (cause : Cause) : Prop :=
  setting.machine.step setting.state =
    .finished (.failed ⟨setting.order, cause⟩) (setting.state.fetched setting.instruction)

private theorem failsWith_iff (setting : Setting opcode left right) :
    setting.FailsWith cause ↔
      setting.machine.effect setting.state setting.instruction = .error cause := by
  rw [FailsWith, step_failed_iff, setting.fetched]
  constructor
  · rintro ⟨_, same, refused, _⟩
    cases same
    exact refused
  · intro refused
    exact ⟨_, rfl, refused, rfl, rfl⟩

/-- The run goes on where the instruction has an effect that does not stop it. -/
theorem step_of_effect (setting : Setting opcode left right) {effect : Effect}
    (planned : setting.machine.effect setting.state setting.instruction = .ok effect)
    (goesOn : ∀ status, effect ≠ .stop status) :
    setting.machine.step setting.state =
      .running ((setting.state.fetched setting.instruction).apply effect) := by
  obtain ⟨operation, found, plan⟩ := effect_ok_iff.mp planned
  exact step_running_iff.mpr ⟨_, operation, effect, setting.fetched, found, plan, goesOn, rfl⟩

end Setting

/-- The instruction that stores whether a relation holds. -/
def Relation.opcode : Relation → Opcode
  | .lt => .lt
  | .gt => .gt
  | .eq => .eq

/-- LT, GT or EQ of two values, to be stored in a declared variable. -/
structure Comparison (relation : Relation) (left right : Value) extends
    Setting relation.opcode left right where
  var : VarRef
  declared : state.frames.targetOf subject = .ok var

namespace Comparison

variable {relation : Relation}

/-- The run goes on, and the variable holds a truth value. -/
def Yields (comparison : Comparison relation left right) (truth : Bool) : Prop :=
  ∃ next, comparison.machine.step comparison.state = .running next ∧
    next.frames.contents comparison.var = .ok (some (.bool truth))

private theorem effect_eq (comparison : Comparison relation left right) :
    comparison.machine.effect comparison.state comparison.instruction =
      (relation.holds left right).map fun truth => .store comparison.var (.bool truth) := by
  have found : operation? comparison.instruction = some (.store comparison.subject
      (.relation relation comparison.first comparison.second)) := by
    cases relation <;> rfl
  simp only [Machine.effect, found, Machine.plan, Formula.value, comparison.firstValued,
    comparison.secondValued, comparison.declared, bind, Except.bind]
  cases relation.holds left right <;> rfl

/-- A comparison yields what the relation is on the two values. -/
theorem yields_iff (comparison : Comparison relation left right) :
    comparison.Yields truth ↔ relation.holds left right = .ok truth := by
  have stored : ∀ {answer}, relation.holds left right = .ok answer →
      ∃ next, comparison.machine.step comparison.state = .running next ∧
        next.frames.contents comparison.var = .ok (some (.bool answer)) := by
    intro answer held
    have planned : comparison.machine.effect comparison.state comparison.instruction =
        .ok (.store comparison.var (.bool answer)) := by
      rw [comparison.effect_eq, held]
      rfl
    refine ⟨_, comparison.step_of_effect planned fun _ => nofun, ?_⟩
    exact (Frames.contents_of_target comparison.declared _).2
  refine ⟨?_, stored⟩
  rintro ⟨next, ran, contents⟩
  cases held : relation.holds left right with
  | error cause =>
    have failed := comparison.failsWith_iff.mpr (by rw [comparison.effect_eq, held]; rfl)
    cases ran.symm.trans failed
  | ok answer =>
    obtain ⟨again, ranToo, answered⟩ := stored held
    cases ran.symm.trans ranToo
    cases contents.symm.trans answered
    rfl

/-- A comparison fails as the relation does on the two values. -/
theorem failsWith_iff (comparison : Comparison relation left right) :
    comparison.FailsWith cause ↔ relation.holds left right = .error cause := by
  rw [Setting.failsWith_iff, comparison.effect_eq]
  cases relation.holds left right <;> simp [Except.map]

end Comparison

/-- A conditional jump on two values, to a label that is defined: JUMPIFEQ, or JUMPIFNEQ where
it is not on equality. -/
structure Branch (onEqual : Bool) (left right : Value) extends
    Setting (if onEqual then .jumpIfEq else .jumpIfNeq) left right where
  position : Nat
  defined : machine.positionOf subject.text = .ok position

namespace Branch

variable {onEqual : Bool}

/-- The instruction has an effect with which the run goes on at a position. -/
def GoesOn (branch : Branch onEqual left right) (effect : Effect) (position : Nat) : Prop :=
  branch.machine.effect branch.state branch.instruction = .ok effect ∧
    branch.machine.step branch.state = .running { branch.state with next := position }

/-- The jump is made, and the run goes on at the label. -/
def Jumps (branch : Branch onEqual left right) : Prop :=
  branch.GoesOn (.jump branch.position) branch.position

/-- The jump is not made, and the run goes on behind the instruction. -/
def Passes (branch : Branch onEqual left right) : Prop :=
  branch.GoesOn .none (branch.state.next + 1)

private theorem effect_eq (branch : Branch onEqual left right) :
    branch.machine.effect branch.state branch.instruction =
      (equality left right).map fun equal =>
        if equal = onEqual then .jump branch.position else .none := by
  have found : operation? branch.instruction = some (.branch onEqual branch.subject.text
      branch.first branch.second) := by
    cases onEqual <;> rfl
  simp only [Machine.effect, found, Machine.plan, branch.defined, branch.firstValued,
    branch.secondValued, bind, Except.bind, beq_iff_eq]
  cases equality left right <;> rfl

/-- Where an effect only moves the position, it decides where the run goes on. -/
theorem goesOn_iff (branch : Branch onEqual left right) (effect : Effect) {position : Nat}
    (moves : { branch.state with next := branch.state.next + 1 }.apply effect =
      { branch.state with next := position }) (goesOn : ∀ status, effect ≠ .stop status) :
    branch.GoesOn effect position ↔
      branch.machine.effect branch.state branch.instruction = .ok effect := by
  refine ⟨And.left, fun planned => ⟨planned, ?_⟩⟩
  have unread : branch.instruction.opcode ≠ .read := by cases onEqual <;> nofun
  rw [branch.step_of_effect planned goesOn, fetched_of_unread unread, moves]

private theorem jumps_iff (branch : Branch onEqual left right) :
    branch.Jumps ↔ equality left right = .ok onEqual := by
  rw [Jumps, branch.goesOn_iff (.jump _) rfl fun _ => nofun, branch.effect_eq]
  cases equality left right <;> simp [Except.map]

private theorem passes_iff (branch : Branch onEqual left right) :
    branch.Passes ↔ equality left right = .ok !onEqual := by
  rw [Passes, branch.goesOn_iff .none rfl fun _ => nofun, branch.effect_eq]
  cases equality left right <;> simp [Except.map, Bool.eq_not]

private theorem failsWith_iff (branch : Branch onEqual left right) :
    branch.FailsWith cause ↔ equality left right = .error cause := by
  rw [Setting.failsWith_iff, branch.effect_eq]
  cases equality left right <;> simp [Except.map]

end Branch

/-! ## One order -/

/-- LT, GT and EQ ask about one order, in whatever states they are executed. LT and GT compare
values of one type other than nil, and EQ compares nil with all values besides. Of values that
LT compares exactly one of the three is true; LT is GT the other way round and transitive, EQ
is symmetric, and nil equals nil only. A conditional jump is made where EQ yields what it is
made on, and fails where EQ does. -/
theorem relations_consistent :
    (∀ relation left right (comparison : Comparison relation left right),
      (∃ truth, comparison.Yields truth) ∨ ∃ cause, comparison.FailsWith cause) ∧
    -- Which values can be compared.
    (∀ relation left right (comparison : Comparison relation left right) cause, relation ≠ .eq →
      (comparison.FailsWith cause ↔ cause = .incompatibleTypes left.type right.type ∧
        (left.type ≠ right.type ∨ left = .nil ∨ right = .nil))) ∧
    (∀ left right (equal : Comparison .eq left right) cause,
      equal.FailsWith cause ↔ cause = .incompatibleTypes left.type right.type ∧
        left ≠ .nil ∧ right ≠ .nil ∧ left.type ≠ right.type) ∧
    -- What is said of values that can be.
    (∀ left right (less : Comparison .lt left right) (equal : Comparison .eq left right)
      (greater : Comparison .gt left right), (∃ truth, less.Yields truth) →
      less.Yields true ∧ equal.Yields false ∧ greater.Yields false ∨
      less.Yields false ∧ equal.Yields true ∧ greater.Yields false ∨
      less.Yields false ∧ equal.Yields false ∧ greater.Yields true) ∧
    (∀ left right (less : Comparison .lt left right) (greater : Comparison .gt right left) truth,
      less.Yields truth ↔ greater.Yields truth) ∧
    (∀ first second third (below : Comparison .lt first second)
      (above : Comparison .lt second third) (across : Comparison .lt first third),
      below.Yields true → above.Yields true → across.Yields true) ∧
    (∀ left right (equal : Comparison .eq left right) (turned : Comparison .eq right left) truth,
      equal.Yields truth ↔ turned.Yields truth) ∧
    (∀ right (equal : Comparison .eq .nil right), equal.Yields (decide (right = .nil))) ∧
    -- Conditional jumps.
    ∀ onEqual left right (branch : Branch onEqual left right) (equal : Comparison .eq left right),
      (branch.Jumps ↔ equal.Yields onEqual) ∧ (branch.Passes ↔ equal.Yields !onEqual) ∧
        ∀ cause, branch.FailsWith cause ↔ equal.FailsWith cause := by
  refine ⟨?_, ?_, ?_, ?_, ?_, ?_, ?_, ?_, ?_⟩
  · intro relation left right comparison
    simp only [comparison.yields_iff, comparison.failsWith_iff]
    cases relation.holds left right <;> simp
  · intro relation left right comparison cause ordering
    rw [comparison.failsWith_iff]
    cases relation with
    | lt | gt => exact inOrder_error_iff
    | eq => exact absurd rfl ordering
  · intro left right equal cause
    rw [equal.failsWith_iff]
    exact equality_error_iff
  · rintro left right less equal greater ⟨truth, yields⟩
    obtain ⟨order, ordered, _⟩ := inOrder_ok_iff.mp (less.yields_iff.mp yields)
    simp only [less.yields_iff, equal.yields_iff, greater.yields_iff, Relation.holds,
      inOrder_ok_iff, equality_ok_iff, ordered, Value.equal_of_order ordered]
    cases order <;> simp
  · intro left right less greater truth
    rw [less.yields_iff, greater.yields_iff]
    exact inOrder_lt_iff_gt
  · intro first second third below above across
    simp only [below.yields_iff, above.yields_iff, across.yields_iff]
    exact inOrder_lt_trans
  · intro left right equal turned truth
    rw [equal.yields_iff, turned.yields_iff]
    exact equality_symm
  · intro right equal
    rw [equal.yields_iff]
    refine equality_ok_iff.mpr (Value.equal_some_iff.mpr ⟨.inl rfl, ?_⟩)
    simp [eq_comm]
  · intro onEqual left right branch equal
    simp only [branch.jumps_iff, branch.passes_iff, branch.failsWith_iff, equal.yields_iff,
      equal.failsWith_iff, Relation.holds, implies_true, and_self]

/-- A program that compares two texts both ways, and nil with a number. -/
def comparing : Program :=
  ⟨[⟨1, .defVar, [⟨.var, "GF@t"⟩]⟩,
    ⟨2, .lt, [⟨.var, "GF@t"⟩, ⟨.literal .string, "ab"⟩, ⟨.literal .string, "b"⟩]⟩,
    ⟨3, .gt, [⟨.var, "GF@t"⟩, ⟨.literal .string, "b"⟩, ⟨.literal .string, "ab"⟩]⟩,
    ⟨4, .eq, [⟨.var, "GF@t"⟩, ⟨.literal .nil, "nil"⟩, ⟨.literal .int, "0"⟩]⟩,
    ⟨5, .jumpIfNeq, [⟨.label, "end"⟩, ⟨.literal .nil, "nil"⟩, ⟨.literal .int, "0"⟩]⟩,
    ⟨6, .label, [⟨.label, "end"⟩]⟩]⟩

/-- The machine that runs it. -/
def comparingMachine : Machine := ⟨⟨comparing.instructions, ⟨[("end", 6)]⟩⟩, .accepting⟩

/-- Its state at a position, with a variable declared. -/
def comparingState (position : Nat) (slot : Slot) : State :=
  { frames := { globals := ⟨[("t", slot)]⟩ }, next := position }

/-- The first comparison of the program. -/
def textsLess : Comparison .lt (.string "ab") (.string "b") :=
  ⟨⟨comparingMachine, comparingState 2 none, 2, ⟨.var, "GF@t"⟩, ⟨.literal .string, "ab"⟩,
    ⟨.literal .string, "b"⟩, rfl, rfl, rfl⟩, ⟨.globalFrame, "t"⟩, rfl⟩

/-- The second one. -/
def textsGreater : Comparison .gt (.string "b") (.string "ab") :=
  ⟨⟨comparingMachine, comparingState 3 (some (.bool true)), 3, ⟨.var, "GF@t"⟩,
    ⟨.literal .string, "b"⟩, ⟨.literal .string, "ab"⟩, rfl, rfl, rfl⟩, ⟨.globalFrame, "t"⟩, rfl⟩

/-- The third one. -/
def nilEqual : Comparison .eq .nil (.int 0) :=
  ⟨⟨comparingMachine, comparingState 4 (some (.bool true)), 4, ⟨.var, "GF@t"⟩,
    ⟨.literal .nil, "nil"⟩, ⟨.literal .int, "0"⟩, rfl, rfl, rfl⟩, ⟨.globalFrame, "t"⟩, rfl⟩

/-- The jump behind it. -/
def nilBranch : Branch false .nil (.int 0) :=
  ⟨⟨comparingMachine, comparingState 5 (some (.bool false)), 5, ⟨.label, "end"⟩,
    ⟨.literal .nil, "nil"⟩, ⟨.literal .int, "0"⟩, rfl, rfl, rfl⟩, 6, rfl⟩

theorem comparing_consistent :
    Code.load comparing = .ok comparingMachine.code ∧
    Reached comparingMachine {} nilBranch.state ∧
    textsLess.Yields true ∧ textsGreater.Yields true ∧ nilEqual.Yields false ∧ nilBranch.Jumps := by
  have loaded : Code.load comparing = .ok comparingMachine.code := load_of_listed rfl rfl rfl
  have declared : Reached comparingMachine {} textsLess.state := .step .initial rfl
  have compared : Reached comparingMachine {} textsGreater.state := .step declared rfl
  have again : Reached comparingMachine {} nilEqual.state := .step compared rfl
  have reached : Reached comparingMachine {} nilBranch.state := .step again rfl
  obtain ⟨_, _, _, _, swapped, _, _, withNil, jumps⟩ := relations_consistent
  have less : textsLess.Yields true := ⟨_, rfl, rfl⟩
  have unequal : nilEqual.Yields false := withNil _ nilEqual
  exact ⟨loaded, reached, less, (swapped _ _ textsLess textsGreater true).mp less, unequal,
    (jumps _ _ _ nilBranch nilEqual).1.mpr unequal⟩

/-! ## The order of texts -/

/-- Whether texts are compared byte by byte in UTF-8 or code point by code point, the order is
the same, and it is the one that LT and GT ask about. -/
theorem byte_order_is_code_point_order (left right : String) :
    Text.byteOrder left right = Text.codePointOrder left right ∧
    Value.order? (.string left) (.string right) = some (Text.byteOrder left right) ∧
    (∀ (less : Comparison .lt (.string left) (.string right)) truth,
      less.Yields truth ↔ truth = (Text.byteOrder left right == .lt)) ∧
    ∀ (greater : Comparison .gt (.string left) (.string right)) truth,
      greater.Yields truth ↔ truth = (Text.byteOrder left right == .gt) := by
  have same := Text.byteOrder_eq_codePointOrder left right
  have ordered : Value.order? (.string left) (.string right) =
      some (Text.byteOrder left right) := by
    rw [same, Text.codePointOrder, Text.compare_toNat, Value.order?]
  have answers : ∀ wanted truth, inOrder wanted (.string left) (.string right) = .ok truth ↔
      truth = (Text.byteOrder left right == wanted) := by
    intro wanted truth
    simp only [inOrder_ok_iff, ordered, Option.some.injEq, exists_eq_left']
    exact eq_comm
  refine ⟨same, ordered, ?_, ?_⟩
  · intro less truth
    rw [less.yields_iff]
    exact answers .lt truth
  · intro greater truth
    rw [greater.yields_iff]
    exact answers .gt truth

end Engine

end Framecode
