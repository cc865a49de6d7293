import Framecode.Proofs.Engine.Steps

/-! Runs by their steps. A run of some fuel is a function of that fuel: it gives the
state after so many steps, and once it has an outcome more fuel changes nothing. Who
watches a run has no influence on it, and what is noted on the way is noted step by step.
Where a step moves a stack by one item at most, what lies on the stack stays there until the
stack is shorter. -/
namespace Framecode.Engine

variable {machine : Machine} {state next last : State} {outcome : Outcome} {σ : Type}
  {watch : σ → State → Instruction → σ}

/-- The state some steps after a given one. A run that is over by then stays in its
last state. -/
def Machine.after (machine : Machine) (steps : Nat) (state : State) : State :=
  (machine.run steps state).state

/-- The last step of a run at most fetches an instruction. -/
theorem last_of_finished (ran : machine.step state = .finished outcome last) :
    last = state ∨ ∃ instr, last = state.fetched instr := by
  unfold Machine.step at ran
  split at ran
  · cases ran
    exact .inl rfl
  · rename_i instr _
    refine .inr ⟨instr, ?_⟩
    split at ran <;> cases ran <;> rfl

private theorem observe_fetched {instr : Instruction}
    (fetched : machine.code.fetch? state.next = some instr) (seen : σ) :
    machine.observe watch state seen = watch seen state instr := by
  rw [Machine.observe, fetched]

theorem runWatched_running (ran : machine.step state = .running next) (fuel : Nat) (seen : σ) :
    machine.runWatched watch (fuel + 1) state seen =
      machine.runWatched watch fuel next (machine.observe watch state seen) := by
  rw [Machine.runWatched, ran]

theorem runWatched_finished (ran : machine.step state = .finished outcome last) (fuel : Nat)
    (seen : σ) : machine.runWatched watch (fuel + 1) state seen =
      ⟨some outcome, last, machine.observe watch state seen⟩ := by
  rw [Machine.runWatched, ran]

theorem run_running (ran : machine.step state = .running next) (fuel : Nat) :
    machine.run (fuel + 1) state = machine.run fuel next :=
  runWatched_running ran fuel ()

theorem run_finished (ran : machine.step state = .finished outcome last) (fuel : Nat) :
    machine.run (fuel + 1) state = ⟨some outcome, last, ()⟩ :=
  runWatched_finished ran fuel ()

@[simp] theorem after_zero (machine : Machine) (state : State) :
    machine.after 0 state = state := rfl

theorem after_running (ran : machine.step state = .running next) (steps : Nat) :
    machine.after (steps + 1) state = machine.after steps next := by
  rw [Machine.after, run_running ran, Machine.after]

theorem after_finished (ran : machine.step state = .finished outcome last) (steps : Nat) :
    machine.after (steps + 1) state = last := by
  rw [Machine.after, run_finished ran]

/-- The next state is one step further, unless the run is over. -/
theorem after_succ (machine : Machine) (steps : Nat) (state : State) :
    machine.after (steps + 1) state = machine.after steps state ∨
      machine.step (machine.after steps state) = .running (machine.after (steps + 1) state) ∨
      ∃ outcome, machine.step (machine.after steps state) =
        .finished outcome (machine.after (steps + 1) state) := by
  induction steps generalizing state with
  | zero =>
    cases ran : machine.step state with
    | running next => exact .inr (.inl (by rw [after_running ran, after_zero, after_zero, ran]))
    | finished outcome last =>
      exact .inr (.inr ⟨outcome, by rw [after_finished ran, after_zero, ran]⟩)
  | succ steps ih =>
    cases ran : machine.step state with
    | running next =>
      rw [after_running ran, after_running ran]
      exact ih next
    | finished outcome last => exact .inl (by rw [after_finished ran, after_finished ran])

/-- What the end of a run never changes is changed by a step that the run goes on after. -/
theorem step_of_change {α : Type} {view : State → α} {steps : Nat}
    (rests : ∀ state outcome last, machine.step state = .finished outcome last →
      view last = view state)
    (changed : view (machine.after (steps + 1) state) ≠ view (machine.after steps state)) :
    machine.step (machine.after steps state) = .running (machine.after (steps + 1) state) := by
  rcases after_succ machine steps state with same | ran | ⟨outcome, ran⟩
  · rw [same] at changed
    exact absurd rfl changed
  · exact ran
  · exact absurd (rests _ _ _ ran) changed

/-- A run that has an outcome has used all the steps it needs. -/
theorem runWatched_of_ended {fuel : Nat} {seen : σ}
    (ended : (machine.runWatched watch fuel state seen).outcome = some outcome) (more : Nat) :
    machine.runWatched watch (fuel + more) state seen =
      machine.runWatched watch fuel state seen := by
  induction fuel generalizing state seen with
  | zero => cases ended
  | succ fuel ih =>
    rw [Nat.succ_add]
    cases ran : machine.step state with
    | running next =>
      rw [runWatched_running ran] at ended
      rw [runWatched_running ran, runWatched_running ran, ih ended]
    | finished found last => rw [runWatched_finished ran, runWatched_finished ran]

/-- Two runs from one state that both have an outcome end alike, whatever their fuel. -/
theorem ended_unique {fuel other : Nat} {seen : σ} {found : Outcome}
    (ended : (machine.runWatched watch fuel state seen).outcome = some outcome)
    (endedToo : (machine.runWatched watch other state seen).outcome = some found) :
    machine.runWatched watch fuel state seen = machine.runWatched watch other state seen := by
  rw [← runWatched_of_ended ended other, Nat.add_comm, runWatched_of_ended endedToo]

/-! ## What a run goes past -/

/-- To watch a run and to add to one's notes at every instruction. -/
def noting {α : Type} (note : State → Instruction → List α) (noted : List α) (state : State)
    (instr : Instruction) : List α :=
  noted ++ note state instr

/-- What somebody has noted who notes something at every instruction of a run, in the order
of execution. -/
def Machine.collect {α : Type} (machine : Machine) (note : State → Instruction → List α)
    (fuel : Nat) (state : State) : List α :=
  (machine.runWatched (noting note) fuel state []).seen

section

variable {α : Type} {note : State → Instruction → List α} {instr : Instruction} {fuel : Nat}

/-- Notes are added to those that are there already. -/
theorem collect_append (machine : Machine) (fuel : Nat) (state : State) (noted : List α) :
    (machine.runWatched (noting note) fuel state noted).seen =
      noted ++ machine.collect note fuel state := by
  induction fuel generalizing state noted with
  | zero => exact (List.append_nil noted).symm
  | succ fuel ih =>
    have observed : machine.observe (noting note) state noted =
        noted ++ machine.observe (noting note) state [] := by
      cases fetched : machine.code.fetch? state.next with
      | none => simp [Machine.observe, fetched]
      | some instr => rw [observe_fetched fetched, observe_fetched fetched]; rfl
    cases ran : machine.step state with
    | running next =>
      rw [Machine.collect, runWatched_running ran, runWatched_running ran, ih, ih, observed,
        List.append_assoc]
    | finished outcome last =>
      rw [Machine.collect, runWatched_finished ran, runWatched_finished ran]
      exact observed

theorem collect_running (fetched : machine.code.fetch? state.next = some instr)
    (ran : machine.step state = .running next) :
    machine.collect note (fuel + 1) state = note state instr ++ machine.collect note fuel next := by
  rw [Machine.collect, runWatched_running ran, collect_append, observe_fetched fetched]
  rfl

theorem collect_finished (fetched : machine.code.fetch? state.next = some instr)
    (ran : machine.step state = .finished outcome last) :
    machine.collect note (fuel + 1) state = note state instr := by
  rw [Machine.collect, runWatched_finished ran, observe_fetched fetched]
  rfl

theorem collect_behind (nothing : machine.code.fetch? state.next = none) :
    machine.collect note fuel state = [] := by
  cases fuel with
  | zero => rfl
  | succ fuel =>
    have ran : machine.step state = .finished .completed state :=
      step_completed_iff.mpr ⟨nothing, rfl⟩
    rw [Machine.collect, runWatched_finished ran]
    simp [Machine.observe, nothing]

end

/-- A run ends if every step takes something away from a number that it starts with. -/
theorem ends_of_decreasing {measure : State → Nat}
    (decreases : ∀ state next, machine.step state = .running next → measure next < measure state)
    {fuel : Nat} (enough : measure state < fuel) :
    ∃ outcome, (machine.run fuel state).outcome = some outcome := by
  induction fuel generalizing state with
  | zero => exact absurd enough (Nat.not_lt_zero _)
  | succ fuel ih =>
    cases ran : machine.step state with
    | running next =>
      have less := decreases state next ran
      rw [run_running ran]
      exact ih (by omega)
    | finished outcome last => exact ⟨outcome, by rw [run_finished ran]⟩

/-! ## How a run ends -/

/-- The run on some input ends with an outcome. -/
def Machine.Ends (machine : Machine) (input : Input) (outcome : Outcome) : Prop :=
  ∃ state last, Reached machine input state ∧ machine.step state = .finished outcome last

/-- Every state that a run reaches is some steps away from the start of it. -/
theorem run_of_reached {input : Input} (reached : Reached machine input state) :
    ∃ steps, ∀ fuel, machine.run (steps + fuel) (.initial input) = machine.run fuel state := by
  induction reached with
  | initial => exact ⟨0, fun fuel => by rw [Nat.zero_add]⟩
  | step before ran ih =>
    obtain ⟨steps, same⟩ := ih
    refine ⟨steps + 1, fun fuel => ?_⟩
    rw [Nat.add_right_comm, Nat.add_assoc, same, run_running ran]

theorem ends_of_run {input : Input} {fuel : Nat}
    (ended : (machine.run fuel (.initial input)).outcome = some outcome) :
    machine.Ends input outcome := by
  obtain ⟨before, reached, ran⟩ := run_ends_in_step .initial ended
  exact ⟨before, _, reached, ran⟩

private theorem run_of_ends {input : Input} (ends : machine.Ends input outcome) :
    ∃ fuel, (machine.run fuel (.initial input)).outcome = some outcome := by
  obtain ⟨state, last, reached, ran⟩ := ends
  obtain ⟨steps, same⟩ := run_of_reached reached
  exact ⟨steps + 1, by rw [same, run_finished ran]⟩

/-- A run ends in one way only. -/
theorem ends_unique {input : Input} {found : Outcome} (ends : machine.Ends input outcome)
    (endsToo : machine.Ends input found) : outcome = found := by
  obtain ⟨fuel, ended⟩ := run_of_ends ends
  obtain ⟨other, endedToo⟩ := run_of_ends endsToo
  have same : (machine.run fuel (.initial input)).outcome =
      (machine.run other (.initial input)).outcome :=
    congrArg Ended.outcome (ended_unique ended endedToo)
  rw [ended, endedToo] at same
  exact Option.some.inj same

/-! ## Stacks -/

theorem items_of_top {α : Type} {stack : Stack α} {item : α} (top : stack.top? = some item) :
    stack.items = item :: stack.pop.items := by
  obtain ⟨items⟩ := stack
  cases items with
  | nil => cases top
  | cons first rest =>
    cases top
    rfl

/-- What one step can do to a stack: nothing, put an item on top, or take the top off. -/
inductive StackMove {α : Type} : List α → List α → Prop where
  | stays {items : List α} : StackMove items items
  | grows {items : List α} (item : α) : StackMove items (item :: items)
  | shrinks {items : List α} (item : α) : StackMove (item :: items) items

private theorem StackMove.length_le {α : Type} {before after : List α}
    (move : StackMove before after) :
    before.length ≤ after.length + 1 := by
  cases move with
  | stays => exact Nat.le_succ _
  | grows item => exact Nat.le_add_right_of_le (Nat.le_succ _)
  | shrinks item => exact Nat.le_refl _

/-- Some items that lie on a stack, and an item on top of them, stay there as long as
the stack is higher than those items. It comes down to their height only when that one
item is taken off, and then they are all that is left. -/
theorem held_until_shorter {α : Type} {held : List α} {item : α} (items : State → List α)
    (moves : ∀ state next, machine.step state = .running next →
      StackMove (items state) (items next))
    (rests : ∀ state outcome last, machine.step state = .finished outcome last →
      items last = items state)
    (lies : item :: held <:+ items state) (steps : Nat)
    (higher : ∀ earlier < steps, (items (machine.after earlier state)).length ≠ held.length) :
    ((items (machine.after steps state)).length ≠ held.length →
      item :: held <:+ items (machine.after steps state)) ∧
    ((items (machine.after steps state)).length = held.length →
      items (machine.after steps state) = held ∧
        ∃ before, items before = item :: held ∧
          machine.step before = .running (machine.after steps state)) := by
  induction steps generalizing state with
  | zero =>
    refine ⟨fun _ => lies, fun same => ?_⟩
    have longer := lies.length_le
    rw [after_zero] at same
    simp only [List.length_cons] at longer
    omega
  | succ steps ih =>
    cases ran : machine.step state with
    | finished outcome last =>
      rw [after_finished ran, rests state outcome last ran]
      refine ⟨fun _ => lies, fun same => ?_⟩
      have longer := lies.length_le
      simp only [List.length_cons] at longer
      omega
    | running next =>
      have shifted : ∀ earlier < steps,
          (items (machine.after earlier next)).length ≠ held.length := by
        intro earlier less
        rw [← after_running ran]
        exact higher (earlier + 1) (by omega)
      rw [after_running ran]
      have move := moves state next ran
      generalize before : items state = under at move lies
      generalize behind : items next = above at move
      cases move with
      | stays => exact ih (behind ▸ lies) shifted
      | grows top => exact ih (behind ▸ lies.trans (List.suffix_cons top _)) shifted
      | shrinks top =>
        rcases List.suffix_cons_iff.mp lies with whole | deeper
        · -- The item itself is taken off: the segment ends here, as no later state is allowed.
          cases whole
          cases steps with
          | zero =>
            rw [after_zero, behind]
            refine ⟨fun longer => absurd rfl longer, fun _ => ⟨rfl, state, before, ran⟩⟩
          | succ steps =>
            have short := shifted 0 (Nat.succ_pos steps)
            rw [after_zero, behind] at short
            exact absurd rfl short
        · exact ih (behind ▸ deeper) shifted

/-- Where a stack comes down to the height of some items for the first time, the step before
took off the one item on top of them. -/
theorem taken_when_shorter {α : Type} {held : List α} {item : α} (items : State → List α)
    (moves : ∀ state next, machine.step state = .running next →
      StackMove (items state) (items next))
    (rests : ∀ state outcome last, machine.step state = .finished outcome last →
      items last = items state)
    (lies : item :: held <:+ items state) {steps : Nat}
    (higher : ∀ earlier < steps, (items (machine.after earlier state)).length ≠ held.length)
    (same : (items (machine.after steps state)).length = held.length) :
    ∃ before, steps = before + 1 ∧
      items (machine.after before state) = item :: items (machine.after steps state) ∧
      machine.step (machine.after before state) = .running (machine.after steps state) := by
  cases steps with
  | zero =>
    have longer := lies.length_le
    rw [after_zero] at same
    simp only [List.length_cons] at longer
    omega
  | succ before =>
    have justBefore := higher before (Nat.lt_succ_self before)
    have back : machine.step (machine.after before state) =
        .running (machine.after (before + 1) state) :=
      step_of_change rests fun unchanged => justBefore (by rw [← unchanged, same])
    have under := (held_until_shorter items moves rests lies before
      fun earlier less => higher earlier (by omega)).1 justBefore
    have whole := ((held_until_shorter items moves rests lies (before + 1) higher).2 same).1
    -- The stack comes down by one item at most, so there was only this one on top.
    have lowered := (moves _ _ back).length_le
    rw [whole] at lowered ⊢
    exact ⟨before, rfl, (under.eq_of_length_le lowered).symm, back⟩

end Framecode.Engine
