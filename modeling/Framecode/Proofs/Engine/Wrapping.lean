import Framecode.Proofs.Engine.Positions
import Framecode.Proofs.Engine.Storing
import Mathlib.Data.Int.ModEq

/-! The instructions on integers. ADD, SUB and MUL compute in the integers modulo 2 ^ 64, and
store the one number of 64 bits in the class of the result. IDIV rounds toward zero; it fails
where the divisor is zero, and nowhere else. Operands of other types are found out before that,
the left one first, and a target that is not there comes last of all. -/
namespace Framecode.Engine

/-! ## Words and quotients -/

/-- A word is the one integer of 64 bits that is congruent to a number. -/
def Wraps (number : Int) (word : Int64) : Prop :=
  word.toInt ≡ number [ZMOD 2 ^ 64] ∧
    ∀ other : Int64, other.toInt ≡ number [ZMOD 2 ^ 64] → other = word

private theorem word_unique {word other : Int64} (same : other.toInt ≡ word.toInt [ZMOD 2 ^ 64]) :
    other = word := by
  have low := word.le_toInt
  have high := word.toInt_lt
  have otherLow := other.le_toInt
  have otherHigh := other.toInt_lt
  refine Int64.toInt_inj.mp ?_
  unfold Int.ModEq at same
  omega

private theorem wraps_of_bmod {number : Int} {word : Int64}
    (same : word.toInt = number.bmod (2 ^ 64)) :
    Wraps number word := by
  have congruent : word.toInt ≡ number [ZMOD 2 ^ 64] := by
    rw [same]
    exact Int.bmod_emod
  exact ⟨congruent, fun other holds => word_unique (holds.trans congruent.symm)⟩

/-- A quotient is rounded toward zero: what remains is less than the divisor, and is zero or has
the sign of the dividend. -/
def Truncates (dividend divisor quotient : Int) : Prop :=
  ∃ remainder, dividend = quotient * divisor + remainder ∧
    remainder.natAbs < divisor.natAbs ∧ (remainder = 0 ∨ remainder.sign = dividend.sign)

private theorem truncates_tdiv {divisor : Int} (nonzero : divisor ≠ 0) (dividend : Int) :
    Truncates dividend divisor (dividend.tdiv divisor) := by
  refine ⟨dividend.tmod divisor, (Int.tdiv_mul_add_tmod dividend divisor).symm, ?_, ?_⟩
  · rw [Int.natAbs_tmod]
    exact Nat.mod_lt _ (Int.natAbs_pos.mpr nonzero)
  · by_cases divides : divisor ∣ dividend
    · exact .inl (Int.tmod_eq_zero_of_dvd divides)
    · exact .inr (by rw [Int.sign_tmod, if_neg divides])

/-- A remainder lies on the side of zero that the dividend lies on. -/
theorem side_of_sign {remainder dividend : Int}
    (signed : remainder = 0 ∨ remainder.sign = dividend.sign) :
    (0 ≤ dividend → 0 ≤ remainder) ∧ (dividend ≤ 0 → remainder ≤ 0) := by
  rcases signed with zero | same
  · omega
  · rcases Int.lt_trichotomy dividend 0 with below | zero | above
    · have negative := Int.sign_eq_neg_one_iff_neg.mp
        (same.trans (Int.sign_eq_neg_one_of_neg below))
      omega
    · have zeroToo := Int.sign_eq_zero_iff_zero.mp
        (same.trans (Int.sign_eq_zero_iff_zero.mpr zero))
      omega
    · have positive := Int.sign_eq_one_iff_pos.mp (same.trans (Int.sign_eq_one_of_pos above))
      omega

/-- There is one such quotient. Two remainders on one side of zero differ by less than the
divisor, and by a multiple of it. -/
theorem truncates_unique {dividend divisor quotient other : Int}
    (first : Truncates dividend divisor quotient) (second : Truncates dividend divisor other) :
    quotient = other := by
  obtain ⟨remainder, splits, small, signed⟩ := first
  obtain ⟨rest, splitsToo, smallToo, signedToo⟩ := second
  have multiple : (other - quotient) * divisor = remainder - rest := by
    rw [sub_mul]
    omega
  have near : (remainder - rest).natAbs < divisor.natAbs := by
    have side := side_of_sign signed
    have sideToo := side_of_sign signedToo
    omega
  have zero := Int.eq_zero_of_dvd_of_natAbs_lt_natAbs (Dvd.intro_left _ multiple) near
  rw [zero] at multiple
  have nonzero : divisor ≠ 0 := by
    rintro rfl
    omega
  have equal := (mul_eq_zero.mp multiple).resolve_right nonzero
  omega

/-! ## The instructions -/

/-- The instruction that stores the result of an operator. -/
def Arithmetic.opcode : Arithmetic → Opcode
  | .add => .add
  | .sub => .sub
  | .mul => .mul
  | .idiv => .idiv

section

variable {operator : Arithmetic} {turn : Turn operator.opcode} {first second : Argument}
  {left right : Int64} {value : Value} {cause : Cause}

private theorem computes_arithmetic (two : turn.operands = [first, second]) :
    turn.Computes (.arithmetic operator first second) := by
  refine ⟨?_⟩
  rw [Turn.instruction, two]
  cases operator <;> rfl

private theorem value_arithmetic {frames : Frames}
    (leftValued : frames.valueOf first = .ok (.int left))
    (rightValued : frames.valueOf second = .ok (.int right)) :
    (Formula.arithmetic operator first second).value frames =
      (operator.apply left right).map Value.int := by
  simp only [Formula.value, Frames.intOf_of_value leftValued, Frames.intOf_of_value rightValued,
    bind, Except.bind]
  cases operator.apply left right <;> rfl

/-- An instruction on two integers answers with the result of its operator. -/
theorem answers_arithmetic (app : Application operator.opcode [.int left, .int right])
    {answer : Except Cause Value} :
    app.Answers answer ↔ (operator.apply left right).map Value.int = answer := by
  refine app.answers_two_iff (fun _ _ _ _ => ?_) fun _ _ _ => value_arithmetic
  cases operator <;> rfl

/-- A left operand of another type is the fault, whatever the right one and the target are. -/
theorem failsWith_of_left (two : turn.operands = [first, second])
    (valued : turn.state.frames.valueOf first = .ok value) (other : value.type ≠ .int) :
    turn.FailsWith (.typeMismatch .int value.type) :=
  Turn.failsWith_of_formula (computes_arithmetic two)
    (bind_error_iff.mpr (.inl (Frames.intOf_of_other valued other)))

/-- Behind an integer, a right operand of another type is the fault, whatever the target is. -/
theorem failsWith_of_right (two : turn.operands = [first, second])
    (leftValued : turn.state.frames.valueOf first = .ok (.int left))
    (valued : turn.state.frames.valueOf second = .ok value) (other : value.type ≠ .int) :
    turn.FailsWith (.typeMismatch .int value.type) :=
  Turn.failsWith_of_formula (computes_arithmetic two)
    (bind_error_iff.mpr (.inr ⟨left, Frames.intOf_of_value leftValued,
      bind_error_iff.mpr (.inl (Frames.intOf_of_other valued other))⟩))

/-- Behind two integers, the operator may be at fault, whatever the target is. -/
theorem failsWith_of_operator (taken : turn.Takes [.int left, .int right])
    (refused : operator.apply left right = .error cause) : turn.FailsWith cause := by
  obtain ⟨first, second, two, leftValued, rightValued⟩ := Turn.takes_two_iff.mp taken
  refine Turn.failsWith_of_formula (computes_arithmetic two) ?_
  rw [value_arithmetic leftValued rightValued, refused]
  rfl

/-- Behind a result, a target that is not there is the fault. -/
theorem failsWith_of_missing (taken : turn.Takes [.int left, .int right]) {result : Int64}
    (applied : operator.apply left right = .ok result)
    (missing : turn.state.frames.targetOf turn.target = .error cause) : turn.FailsWith cause := by
  obtain ⟨first, second, two, leftValued, rightValued⟩ := Turn.takes_two_iff.mp taken
  have valued : (Formula.arithmetic operator first second).value turn.state.frames =
      .ok (.int result) := by
    rw [value_arithmetic leftValued rightValued, applied]
    rfl
  exact Turn.failsWith_of_target (computes_arithmetic two) valued missing

private theorem idiv_error_iff :
    Arithmetic.apply .idiv left right = .error cause ↔ right = 0 ∧ cause = .divisionByZero := by
  by_cases zero : right = 0 <;> simp [Arithmetic.apply, zero, eq_comm]

private theorem quotient_truncates (nonzero : right ≠ 0)
    (fits : ¬(left.toInt = -2 ^ 63 ∧ right.toInt = -1)) :
    Truncates left.toInt right.toInt (left / right).toInt := by
  have exact : (left / right).toInt = left.toInt.tdiv right.toInt := by
    by_cases lowest : left = Int64.minValue
    · refine Int64.toInt_div_of_ne_right left right ?_
      rintro rfl
      exact fits ⟨congrArg Int64.toInt lowest, rfl⟩
    · exact Int64.toInt_div_of_ne_left left right lowest
  rw [exact]
  exact truncates_tdiv (fun zero => nonzero (Int64.toInt_inj.mp zero)) _

end

/-! ## Two's complement -/

/-- The instructions on integers, in whatever states they are executed. ADD, SUB and MUL store the
word of the exact result, so that SUB undoes ADD. IDIV fails for a divisor of zero only, and
rounds toward zero; the one quotient that no word is equal to comes back as the lowest integer.
The left operand is looked at first, then the right one, then the divisor, and then the target. -/
theorem integer_instructions_wrap :
    (∀ a b (adding : Application .add [.int a, .int b]), ∃ c,
      adding.Answers (.ok (.int c)) ∧ Wraps (a.toInt + b.toInt) c) ∧
    (∀ a b (subtracting : Application .sub [.int a, .int b]), ∃ c,
      subtracting.Answers (.ok (.int c)) ∧ Wraps (a.toInt - b.toInt) c) ∧
    (∀ a b (multiplying : Application .mul [.int a, .int b]), ∃ c,
      multiplying.Answers (.ok (.int c)) ∧ Wraps (a.toInt * b.toInt) c) ∧
    -- A quotient is exact but for one that has no word.
    (∀ a b (dividing : Application .idiv [.int a, .int b]),
      (∀ cause, dividing.Answers (.error cause) ↔ b = 0 ∧ cause = .divisionByZero) ∧
      (a.toInt = -2 ^ 63 → b.toInt = -1 →
        ∃ q : Int64, dividing.Answers (.ok (.int q)) ∧ q.toInt = -2 ^ 63) ∧
      (b ≠ 0 → ¬(a.toInt = -2 ^ 63 ∧ b.toInt = -1) →
        ∃ q : Int64, dividing.Answers (.ok (.int q)) ∧ Truncates a.toInt b.toInt q.toInt ∧
          ∀ other, Truncates a.toInt b.toInt other → other = q.toInt)) ∧
    (∀ a b c (adding : Application .add [.int a, .int b])
      (undoing : Application .sub [.int c, .int b]),
      adding.Answers (.ok (.int c)) → undoing.Answers (.ok (.int a))) ∧
    -- The order in which faults are found.
    ∀ operator (turn : Turn (Arithmetic.opcode operator)) first second,
      turn.operands = [first, second] →
      (∀ left, turn.state.frames.valueOf first = .ok left → left.type ≠ .int →
        turn.FailsWith (.typeMismatch .int left.type)) ∧
      (∀ a right, turn.state.frames.valueOf first = .ok (.int a) →
        turn.state.frames.valueOf second = .ok right → right.type ≠ .int →
        turn.FailsWith (.typeMismatch .int right.type)) ∧
      (∀ a, turn.Takes [.int a, .int 0] → operator = .idiv → turn.FailsWith .divisionByZero) ∧
      ∀ a b cause, turn.Takes [.int a, .int b] → (operator = .idiv → b ≠ 0) →
        turn.state.frames.targetOf turn.target = .error cause → turn.FailsWith cause := by
  refine ⟨?_, ?_, ?_, ?_, ?_, ?_⟩
  · intro a b adding
    exact ⟨a + b, (@answers_arithmetic .add a b adding _).mpr rfl,
      wraps_of_bmod (Int64.toInt_add a b)⟩
  · intro a b subtracting
    exact ⟨a - b, (@answers_arithmetic .sub a b subtracting _).mpr rfl,
      wraps_of_bmod (Int64.toInt_sub a b)⟩
  · intro a b multiplying
    exact ⟨a * b, (@answers_arithmetic .mul a b multiplying _).mpr rfl,
      wraps_of_bmod (Int64.toInt_mul a b)⟩
  · intro a b dividing
    have answers {answer} := @answers_arithmetic .idiv a b dividing answer
    refine ⟨?_, ?_, ?_⟩
    · intro cause
      exact answers.trans (map_error_iff.trans idiv_error_iff)
    · intro lowest minusOne
      have dividend : a = Int64.minValue := Int64.toInt_inj.mp lowest
      have divisor : b = -1 := Int64.toInt_inj.mp minusOne
      refine ⟨Int64.minValue, answers.mpr ?_, rfl⟩
      rw [dividend, divisor]
      rfl
    · intro nonzero fits
      have truncates := quotient_truncates nonzero fits
      refine ⟨a / b, answers.mpr ?_, truncates, fun other rounded => ?_⟩
      · rw [Arithmetic.apply, if_neg nonzero]
        rfl
      · exact truncates_unique rounded truncates
  · intro a b c adding undoing added
    cases (@answers_arithmetic .add a b adding _).mp added
    refine (@answers_arithmetic .sub (a + b) b undoing _).mpr ?_
    simp only [Arithmetic.apply, Int64.add_sub_cancel]
    rfl
  · intro operator turn first second two
    refine ⟨fun left => failsWith_of_left two, fun a right => failsWith_of_right two, ?_, ?_⟩
    · rintro a taken rfl
      exact failsWith_of_operator taken rfl
    · intro a b cause taken nonzero missing
      cases operator with
      | add | sub | mul => exact failsWith_of_missing taken rfl missing
      | idiv => exact failsWith_of_missing taken (if_neg (nonzero rfl)) missing

/-- A program that exceeds the highest integer and comes back, divides, and ends with a fault: it
divides a truth value by zero, for a variable that is not declared. -/
def exceeding : Program :=
  ⟨[⟨1, .defVar, [⟨.var, "GF@r"⟩]⟩,
    ⟨2, .add, [⟨.var, "GF@r"⟩, ⟨.literal .int, "9223372036854775807"⟩, ⟨.literal .int, "1"⟩]⟩,
    ⟨3, .sub, [⟨.var, "GF@r"⟩, ⟨.var, "GF@r"⟩, ⟨.literal .int, "1"⟩]⟩,
    ⟨4, .idiv, [⟨.var, "GF@r"⟩, ⟨.literal .int, "-7"⟩, ⟨.literal .int, "2"⟩]⟩,
    ⟨5, .idiv, [⟨.var, "GF@r"⟩, ⟨.literal .int, "-9223372036854775808"⟩, ⟨.literal .int, "-1"⟩]⟩,
    ⟨6, .idiv, [⟨.var, "GF@q"⟩, ⟨.literal .bool, "true"⟩, ⟨.literal .int, "0"⟩]⟩]⟩

/-- The machine that runs it. -/
def exceedingMachine : Machine := ⟨⟨exceeding.instructions, {}⟩, .accepting⟩

/-- Its state at a position, with the variable declared. -/
def exceedingState (position : Nat) (slot : Slot) : State :=
  { frames := { globals := ⟨[("r", slot)]⟩ }, next := position }

/-- The sum of the program. -/
def exceedingSum : Application .add [.int Int64.maxValue, .int 1] :=
  ⟨⟨exceedingMachine, exceedingState 2 none, 2, ⟨.var, "GF@r"⟩,
    [⟨.literal .int, "9223372036854775807"⟩, ⟨.literal .int, "1"⟩], rfl⟩,
    ⟨.globalFrame, "r"⟩, rfl, rfl⟩

/-- The difference behind it. -/
def exceedingDifference : Application .sub [.int Int64.minValue, .int 1] :=
  ⟨⟨exceedingMachine, exceedingState 3 (some (.int Int64.minValue)), 3, ⟨.var, "GF@r"⟩,
    [⟨.var, "GF@r"⟩, ⟨.literal .int, "1"⟩], rfl⟩, ⟨.globalFrame, "r"⟩, rfl, rfl⟩

/-- The first quotient. -/
def negativeQuotient : Application .idiv [.int (-7), .int 2] :=
  ⟨⟨exceedingMachine, exceedingState 4 (some (.int Int64.maxValue)), 4, ⟨.var, "GF@r"⟩,
    [⟨.literal .int, "-7"⟩, ⟨.literal .int, "2"⟩], rfl⟩, ⟨.globalFrame, "r"⟩, rfl, rfl⟩

/-- The second one. -/
def lowestQuotient : Application .idiv [.int Int64.minValue, .int (-1)] :=
  ⟨⟨exceedingMachine, exceedingState 5 (some (.int (-3))), 5, ⟨.var, "GF@r"⟩,
    [⟨.literal .int, "-9223372036854775808"⟩, ⟨.literal .int, "-1"⟩], rfl⟩,
    ⟨.globalFrame, "r"⟩, by rfl, by rfl⟩

/-- The last instruction. -/
def mistypedQuotient : Turn .idiv :=
  ⟨exceedingMachine, exceedingState 6 (some (.int Int64.minValue)), 6, ⟨.var, "GF@q"⟩,
    [⟨.literal .bool, "true"⟩, ⟨.literal .int, "0"⟩], rfl⟩

theorem exceeding_comes_back :
    Code.load exceeding = .ok exceedingMachine.code ∧
    Reached exceedingMachine {} mistypedQuotient.state ∧
    exceedingSum.Answers (.ok (.int Int64.minValue)) ∧
    exceedingDifference.Answers (.ok (.int Int64.maxValue)) ∧
    (∃ q : Int64, negativeQuotient.Answers (.ok (.int q)) ∧ Truncates (-7) 2 q.toInt) ∧
    (∃ q : Int64, lowestQuotient.Answers (.ok (.int q)) ∧ q.toInt = -2 ^ 63) ∧
    mistypedQuotient.FailsWith (.typeMismatch .int .bool) := by
  have loaded : Code.load exceeding = .ok exceedingMachine.code := load_of_listed rfl rfl rfl
  have added : Reached exceedingMachine {} exceedingSum.state := .step .initial rfl
  have subtracted : Reached exceedingMachine {} exceedingDifference.state := .step added rfl
  have divided : Reached exceedingMachine {} negativeQuotient.state := .step subtracted rfl
  have again : Reached exceedingMachine {} lowestQuotient.state := .step divided rfl
  have reached : Reached exceedingMachine {} mistypedQuotient.state := .step again rfl
  obtain ⟨_, _, _, divides, undoes, faults⟩ := integer_instructions_wrap
  have sum : exceedingSum.Answers (.ok (.int Int64.minValue)) := ⟨rfl, rfl⟩
  obtain ⟨q, quotient, rounded, _⟩ := (divides _ _ negativeQuotient).2.2 (by decide) (by decide)
  exact ⟨loaded, reached, sum, undoes _ _ _ exceedingSum exceedingDifference sum,
    ⟨q, quotient, rounded⟩, (divides _ _ lowestQuotient).2.1 rfl rfl,
    (faults .idiv mistypedQuotient _ _ rfl).1 (.bool true) rfl (by decide)⟩

end Framecode.Engine
