import Framecode.Engine.Journal
import Framecode.Proofs.Engine.Agreement
import Framecode.Proofs.Engine.Positions
import Framecode.Proofs.Engine.Runs

/-! Local scopes. An instruction sees the global frame, the temporary one and the top of
the frame stack, and it changes nothing else. As long as a frame of its own lies on the
stack, a piece of code therefore runs above any other frames as it runs above none: they
are put underneath its result as they were put underneath its start. -/
namespace Framecode.Engine

/-! ## What an instruction sees of the frames -/

section

variable {left right : Frames} (same : left.frame? = right.frame?)
include same

private theorem frame_congr : left.frame = right.frame := by
  funext role
  rw [Frames.frame, Frames.frame, same]

private theorem contents_congr : left.contents = right.contents := by
  funext var
  rw [Frames.contents, Frames.contents, frame_congr same]

private theorem checkFresh_congr : left.checkFresh = right.checkFresh := by
  funext var
  rw [Frames.checkFresh, Frames.checkFresh, frame_congr same]

private theorem targetOf_congr : left.targetOf = right.targetOf := by
  funext arg
  rw [Frames.targetOf, Frames.targetOf, contents_congr same]

private theorem slotOf_congr : left.slotOf = right.slotOf := by
  funext arg
  rw [Frames.slotOf, Frames.slotOf, contents_congr same]

private theorem valueOf_congr : left.valueOf = right.valueOf := by
  funext arg
  rw [Frames.valueOf, Frames.valueOf, slotOf_congr same]

private theorem intOf_congr : left.intOf = right.intOf := by
  funext arg
  rw [Frames.intOf, Frames.intOf, valueOf_congr same]

private theorem boolOf_congr : left.boolOf = right.boolOf := by
  funext arg
  rw [Frames.boolOf, Frames.boolOf, valueOf_congr same]

private theorem textOf_congr : left.textOf = right.textOf := by
  funext arg
  rw [Frames.textOf, Frames.textOf, valueOf_congr same]

/-- A formula has the same value in frames that are the same by role. -/
theorem formula_congr (formula : Formula) : formula.value left = formula.value right := by
  cases formula <;>
    simp only [Formula.value, slotOf_congr same, valueOf_congr same, intOf_congr same,
      boolOf_congr same, textOf_congr same]

end

/-! ## Frames underneath -/

/-- Frames with others underneath those of the stack. -/
def Frames.onto (base : List Frame) (frames : Frames) : Frames :=
  { frames with locals := ⟨frames.locals.items ++ base⟩ }

/-- A state with other frames underneath those of the stack. -/
def State.onto (base : List Frame) (state : State) : State :=
  { state with frames := state.frames.onto base }

/-- A step with other frames underneath. -/
def Progress.onto (base : List Frame) : Progress → Progress
  | .running state => .running (state.onto base)
  | .finished outcome state => .finished outcome (state.onto base)

/-- The end of a run with other frames underneath. -/
def Ended.onto {σ : Type} (base : List Frame) (ended : Ended σ) : Ended σ :=
  { ended with state := ended.state.onto base }

/-- There is a local frame. -/
def Frames.HasLocal (frames : Frames) : Prop := frames.locals.items ≠ []

variable {machine : Machine} {base : List Frame}

private theorem items_of_hasLocal {frames : Frames} (held : frames.HasLocal) :
    ∃ top rest, frames.locals.items = top :: rest :=
  List.exists_cons_of_ne_nil held

private theorem depth_onto (base : List Frame) (state : State) :
    (state.onto base).frames.depth = state.frames.depth + base.length :=
  List.length_append

/-- What lies underneath a local frame is not seen. -/
theorem frame_onto {frames : Frames} (held : frames.HasLocal) :
    (frames.onto base).frame? = frames.frame? := by
  obtain ⟨top, rest, items⟩ := items_of_hasLocal held
  funext role
  cases role with
  | globalFrame | temporaryFrame => rfl
  | localFrame => simp [Frames.frame?, Frames.onto, Stack.top?, items]

/-- The frame that a role names is changed as if nothing lay underneath. -/
theorem modify_onto {frames : Frames} (held : frames.HasLocal) (role : FrameRole)
    (change : Frame → Frame) :
    (frames.onto base).modify role change = (frames.modify role change).onto base := by
  obtain ⟨top, rest, items⟩ := items_of_hasLocal held
  cases role with
  | globalFrame | temporaryFrame => rfl
  | localFrame => simp [Frames.modify, Frames.onto, Stack.modifyTop, items]

private theorem push_onto (base : List Frame) (frames : Frames) :
    (frames.onto base).push = frames.push.map (·.onto base) := by
  obtain ⟨globals, locals, temporary⟩ := frames
  cases temporary <;> rfl

private theorem pop_onto {frames : Frames} (held : frames.HasLocal) :
    (frames.onto base).pop = frames.pop.map (·.onto base) := by
  obtain ⟨globals, ⟨items⟩, temporary⟩ := frames
  cases items with
  | nil => exact absurd rfl held
  | cons top rest => rfl

private theorem toOption_getD_map {ε α : Type} (change : α → α) (result : Except ε α)
    (default : α) :
    (result.map change).toOption.getD (change default) = change (result.toOption.getD default) := by
  cases result <;> rfl

/-- The checks of an operation do not depend on what lies underneath. -/
theorem plan_onto {state : State} (held : state.frames.HasLocal) (operation : Operation) :
    machine.plan (state.onto base) operation = machine.plan state operation := by
  have view : (state.onto base).frames.frame? = state.frames.frame? := frame_onto held
  cases operation with
  | pushFrame =>
    simp only [Machine.plan, State.onto, push_onto]
    cases state.frames.push <;> rfl
  | popFrame =>
    simp only [Machine.plan, State.onto, pop_onto held]
    cases state.frames.pop <;> rfl
  | createFrame | label | jump | call | ret | dprint | breakpoint => rfl
  | store | define | push | branch | exit =>
    simp only [Machine.plan, formula_congr view, targetOf_congr view, checkFresh_congr view,
      valueOf_congr view]
  | read | pop | write =>
    simp only [Machine.plan, targetOf_congr view, valueOf_congr view]
    rfl

/-- An effect leaves alone what lies underneath. -/
theorem apply_onto {state : State} (held : state.frames.HasLocal) (effect : Effect) :
    (state.onto base).apply effect = (state.apply effect).onto base := by
  cases effect with
  | store var value | declare var | popTo var value =>
    simp only [State.apply, State.onto, Frames.setSlot, Frames.addVariable, modify_onto held]
  | pushFrame => simp only [State.apply, State.onto, push_onto, toOption_getD_map]
  | popFrame => simp only [State.apply, State.onto, pop_onto held, toOption_getD_map]
  | _ => rfl

/-- A step that has a local frame is the same with other frames underneath. -/
theorem step_onto {state : State} (held : state.frames.HasLocal) :
    machine.step (state.onto base) = (machine.step state).onto base := by
  have checked : ∀ instr, machine.effect (state.onto base) instr = machine.effect state instr := by
    intro instr
    unfold Machine.effect
    cases operation? instr with
    | none => rfl
    | some operation => exact plan_onto held operation
  have fetched : ∀ instr, (state.onto base).fetched instr = (state.fetched instr).onto base :=
    fun _ => rfl
  have position : (state.onto base).next = state.next := rfl
  unfold Machine.step
  rw [position]
  cases machine.code.fetch? state.next with
  | none => rfl
  | some instr =>
    simp only [checked, fetched]
    cases machine.effect state instr with
    | error cause => rfl
    | ok effect =>
      have applied := @apply_onto base (state.fetched instr) held effect
      cases effect <;> simp only [applied, Progress.onto]

/-- A run is the same with other frames underneath, as far as it has a local frame. A
watcher sees the other frames too. -/
theorem runWatched_onto {σ : Type} {watch : σ → State → Instruction → σ} {state : State}
    (steps : Nat) (held : ∀ earlier < steps, (machine.after earlier state).frames.HasLocal)
    (seen : σ) :
    machine.runWatched watch steps (state.onto base) seen =
      (machine.runWatched (fun seen state instr => watch seen (state.onto base) instr)
        steps state seen).onto base := by
  induction steps generalizing state seen with
  | zero => rfl
  | succ steps ih =>
    have here : state.frames.HasLocal := held 0 (Nat.succ_pos steps)
    have observed : machine.observe watch (state.onto base) seen =
        machine.observe (fun seen state instr => watch seen (state.onto base) instr) state seen :=
      rfl
    cases ran : machine.step state with
    | running next =>
      have above : machine.step (state.onto base) = .running (next.onto base) := by
        rw [step_onto here, ran]
        rfl
      rw [runWatched_running above, runWatched_running ran, observed]
      refine ih ?_ _
      intro earlier less
      rw [← after_running ran]
      exact held (earlier + 1) (by omega)
    | finished outcome last =>
      have above : machine.step (state.onto base) = .finished outcome (last.onto base) := by
        rw [step_onto here, ran]
        rfl
      rw [runWatched_finished above, runWatched_finished ran, observed]
      rfl

private theorem after_onto {state : State} (steps : Nat)
    (held : ∀ earlier < steps, (machine.after earlier state).frames.HasLocal) :
    machine.after steps (state.onto base) = (machine.after steps state).onto base := by
  rw [Machine.after, Machine.run, runWatched_onto steps held]
  rfl

/-- Above other frames, a stack that is higher than these holds a local frame. -/
theorem hasLocal_of_higher {state : State} {steps : Nat}
    (higher : ∀ earlier < steps,
      (machine.after earlier (state.onto base)).frames.depth ≠ base.length) :
    ∀ earlier < steps, (machine.after earlier state).frames.HasLocal := by
  intro earlier
  -- The depth can be told only while all states before have a local frame.
  induction earlier using Nat.strongRecOn with
  | ind earlier ih =>
    intro less empty
    have here := higher earlier less
    rw [after_onto earlier fun before sooner => ih before sooner (by omega), depth_onto] at here
    rw [Frames.depth, Stack.size, empty] at here
    simp at here

/-! ## Pushing and popping frames -/

/-- A state without any frames on its stack. -/
def State.bare (state : State) : State :=
  { state with frames := { state.frames with locals := {} } }

private theorem bare_onto (state : State) : state.bare.onto state.frames.locals.items = state := rfl

private theorem operation_of_pushFrame {instr : Instruction} {operation : Operation}
    (found : operation? instr = some operation) (pushing : instr.opcode = .pushFrame) :
    operation = .pushFrame := by
  have counted := counted_of_operation found
  obtain ⟨order, opcode, args⟩ := instr
  cases pushing
  cases List.length_eq_zero_iff.mp counted
  cases found
  rfl

theorem push_ok_iff {frames result : Frames} : frames.push = .ok result ↔
    ∃ frame, frames.temporary = some frame ∧
      result = { frames with locals := frames.locals.push frame, temporary := none } := by
  cases pending : frames.temporary with
  | none => simp [Frames.push, pending]
  | some frame => simp [Frames.push, pending, eq_comm]

theorem pop_ok_iff {frames result : Frames} : frames.pop = .ok result ↔
    ∃ frame, frames.locals.top? = some frame ∧
      result = { frames with locals := frames.locals.pop, temporary := some frame } := by
  cases top : frames.locals.top? with
  | none => simp [Frames.pop, top]
  | some frame => simp [Frames.pop, top, eq_comm]

/-- A PUSHFRAME needs a temporary frame, and makes it the local one. -/
theorem step_pushFrame_iff {state next : State} {instr : Instruction}
    (fetched : machine.code.fetch? state.next = some instr)
    (found : operation? instr = some .pushFrame) :
    machine.step state = .running next ↔ ∃ frame, state.frames.temporary = some frame ∧
      next = { state.fetched instr with frames :=
        { state.frames with locals := state.frames.locals.push frame, temporary := none } } := by
  simp only [Machine.step, fetched, Machine.effect, found, Machine.plan, State.apply, Frames.push,
    State.fetched]
  cases state.frames.temporary with
  | none => simp [bind, Except.bind]
  | some frame =>
    simp only [bind, Except.bind, pure, Except.pure, Except.toOption, Option.getD_some,
      Progress.running.injEq, Option.some.injEq, exists_eq_left']
    exact eq_comm

/-- What a PUSHFRAME does is the same whatever lies underneath. -/
theorem step_of_pushFrame {state next : State} {instr : Instruction}
    (fetched : machine.code.fetch? state.next = some instr) (pushing : instr.opcode = .pushFrame)
    (ran : machine.step state = .running next) :
    ∃ inner : State, inner.frames.depth = 1 ∧
      ∀ base, machine.step (state.bare.onto base) = .running (inner.onto base) := by
  obtain ⟨_, operation, _, same, found, _⟩ := step_running_iff.mp ran
  cases fetched.symm.trans same
  cases operation_of_pushFrame found pushing
  obtain ⟨frame, pending, _⟩ := (step_pushFrame_iff fetched found).mp ran
  refine ⟨{ state.fetched instr with frames :=
    { state.frames with locals := ⟨[frame]⟩, temporary := none } }, rfl, fun base => ?_⟩
  exact (@step_pushFrame_iff machine (state.bare.onto base) _ instr fetched found).mpr
    ⟨frame, pending, rfl⟩

private theorem hasLocal_modify {frames : Frames} {role : FrameRole} {change : Frame → Frame}
    (held : frames.HasLocal) : (frames.modify role change).HasLocal := by
  obtain ⟨top, rest, items⟩ := items_of_hasLocal held
  cases role with
  | globalFrame | temporaryFrame => exact held
  | localFrame => simp [Frames.HasLocal, Frames.modify, Stack.modifyTop, items]

/-- The last local frame is gone only when it has become the temporary one. -/
theorem temporary_of_emptied {state next : State} (ran : machine.step state = .running next)
    (held : state.frames.HasLocal) (gone : ¬ next.frames.HasLocal) :
    next.frames.temporary = state.frames.locals.top? := by
  obtain ⟨instr, operation, effect, _, _, planned, _, rfl⟩ := step_running_iff.mp ran
  cases planned with
  | store | read | define | pop => exact absurd (hasLocal_modify held) gone
  | pushFrame pushed =>
    refine absurd ?_ gone
    simp only [State.apply, State.fetched, pushed]
    obtain ⟨frame, _, rfl⟩ := push_ok_iff.mp pushed
    exact List.cons_ne_nil _ _
  | popFrame popped =>
    simp only [State.apply, State.fetched, popped]
    obtain ⟨frame, top, rfl⟩ := pop_ok_iff.mp popped
    exact top.symm
  | _ => exact absurd held gone

/-- The last step of a run leaves the frames alone. -/
theorem frames_of_finished {state last : State} {outcome : Outcome}
    (ran : machine.step state = .finished outcome last) : last.frames = state.frames := by
  rcases last_of_finished ran with rfl | ⟨instr, rfl⟩ <;> rfl

/-- In a run that loses its last local frame, that frame was on top one step before and has
become the temporary one. -/
theorem temporary_of_left {state : State} {steps : Nat} (starts : state.frames.HasLocal)
    (held : ∀ earlier < steps, (machine.after earlier state).frames.HasLocal)
    (gone : ¬ (machine.after steps state).frames.HasLocal) :
    ∃ before top rest, steps = before + 1 ∧
      (machine.after before state).frames.locals.items = top :: rest ∧
      (machine.after steps state).frames.temporary = some top := by
  cases steps with
  | zero => exact absurd starts gone
  | succ before =>
    have justBefore := held before (Nat.lt_succ_self before)
    obtain ⟨top, rest, items⟩ := items_of_hasLocal justBefore
    refine ⟨before, top, rest, rfl, items, ?_⟩
    rcases after_succ machine before state with same | ran | ⟨outcome, ran⟩
    · rw [same] at gone
      exact absurd justBefore gone
    · rw [temporary_of_emptied ran justBefore gone, Stack.top?, items]
      rfl
    · rw [frames_of_finished ran] at gone
      exact absurd justBefore gone

/-! ## Journals -/

/-- A journal says how many frames there are, and nothing else about them. -/
theorem note_onto {other : List Frame} (height : other.length = base.length) (limit : Nat)
    (journal : Journal) (state : State) (instr : Instruction) :
    Journal.note limit journal (state.onto other) instr =
      Journal.note limit journal (state.onto base) instr := by
  have snapshots : ((state.onto other).fetched instr).snapshot =
      ((state.onto base).fetched instr).snapshot := by
    have depths : ((state.fetched instr).onto other).frames.depth =
        ((state.fetched instr).onto base).frames.depth := by
      rw [depth_onto, depth_onto, height]
    exact (Snapshot.mk.injEq ..).mpr ⟨rfl, rfl, depths, rfl, rfl, rfl⟩
  have events : eventOf? (state.onto other) instr = eventOf? (state.onto base) instr := by
    unfold eventOf?
    rw [snapshots]
  rw [Journal.note, Journal.note, events]

/-- A run above some frames has the same journal above as many others, and ends in the same
way. -/
theorem journal_onto {other : List Frame} (height : other.length = base.length) {state : State}
    {steps : Nat} (held : ∀ earlier < steps, (machine.after earlier state).frames.HasLocal)
    (limit : Nat) (journal : Journal) :
    (machine.runWatched (Journal.note limit) steps (state.onto other) journal).outcome =
        (machine.runWatched (Journal.note limit) steps (state.onto base) journal).outcome ∧
      (machine.runWatched (Journal.note limit) steps (state.onto other) journal).seen =
        (machine.runWatched (Journal.note limit) steps (state.onto base) journal).seen := by
  have watched :
      (fun seen state instr => Journal.note limit seen (State.onto other state) instr) =
        fun seen state instr => Journal.note limit seen (State.onto base state) instr := by
    funext seen state instr
    exact note_onto height limit seen state instr
  rw [runWatched_onto steps held, runWatched_onto steps held, watched]
  exact ⟨rfl, rfl⟩

/-- Local scopes are isolated. After a PUSHFRAME the frames from before it stay
underneath, as they are, for as long as the stack is higher than they are. When it is as
high again for the first time, they are all that is left on it, and the temporary frame is
the one that was on top of them just then. Up to that point nothing depends on them: with
as many other frames in their place the PUSHFRAME succeeds too, every later state is the
same above those frames, and the run has the same journal and ends in the same way. -/
theorem local_scopes_isolated {state entered : State} {instr : Instruction}
    (fetched : machine.code.fetch? state.next = some instr) (pushing : instr.opcode = .pushFrame)
    (ran : machine.step state = .running entered) (steps : Nat)
    (inside : ∀ earlier < steps,
      (machine.after earlier entered).frames.depth ≠ state.frames.depth) :
    state.frames.locals.items <:+ (machine.after steps entered).frames.locals.items ∧
    ((machine.after steps entered).frames.depth = state.frames.depth →
      (machine.after steps entered).frames.locals = state.frames.locals ∧
        ∃ before top, steps = before + 1 ∧
          (machine.after before entered).frames.locals.top? = some top ∧
          (machine.after steps entered).frames.temporary = some top) ∧
    ∀ other : List Frame, other.length = state.frames.depth →
      ∃ enteredToo, machine.step (state.bare.onto other) = .running enteredToo ∧
        (∃ inner : State, machine.after steps entered = inner.onto state.frames.locals.items ∧
          machine.after steps enteredToo = inner.onto other) ∧
        ∀ limit journal,
          (machine.runWatched (Journal.note limit) steps enteredToo journal).outcome =
              (machine.runWatched (Journal.note limit) steps entered journal).outcome ∧
            (machine.runWatched (Journal.note limit) steps enteredToo journal).seen =
              (machine.runWatched (Journal.note limit) steps entered journal).seen := by
  obtain ⟨inner, single, pushed⟩ := step_of_pushFrame fetched pushing ran
  have start : entered = inner.onto state.frames.locals.items := by
    have same := pushed state.frames.locals.items
    rw [bare_onto, ran] at same
    exact Progress.running.inj same
  subst start
  have held := hasLocal_of_higher inside
  have later : ∀ earlier ≤ steps,
      machine.after earlier (inner.onto state.frames.locals.items) =
        (machine.after earlier inner).onto state.frames.locals.items :=
    fun earlier upTo => after_onto earlier fun before sooner => held before (by omega)
  refine ⟨?_, fun same => ?_, fun other height => ?_⟩
  · rw [later steps (Nat.le_refl steps)]
    exact List.suffix_append _ _
  · rw [later steps (Nat.le_refl steps)] at same ⊢
    have emptied : (machine.after steps inner).frames.locals.items = [] := by
      rw [depth_onto] at same
      exact List.length_eq_zero_iff.mp (Nat.right_eq_add.mp same.symm)
    have starts : inner.frames.HasLocal := List.ne_nil_of_length_eq_add_one single
    obtain ⟨before, top, rest, rfl, items, moved⟩ :=
      temporary_of_left starts held fun still => still emptied
    refine ⟨?_, before, top, rfl, ?_, moved⟩
    · simp [State.onto, Frames.onto, emptied]
    · rw [later before (Nat.le_succ before)]
      simp [State.onto, Frames.onto, Stack.top?, items]
  · exact ⟨inner.onto other, pushed other,
      ⟨_, later steps (Nat.le_refl steps), after_onto steps held⟩, journal_onto height held⟩

/-- A program that opens a scope inside another one, and declares a variable there of the
same name. -/
def shadowing : Program :=
  ⟨[⟨1, .createFrame, []⟩, ⟨2, .defVar, [⟨.var, "TF@x"⟩]⟩, ⟨3, .pushFrame, []⟩,
    ⟨4, .createFrame, []⟩, ⟨5, .pushFrame, []⟩, ⟨6, .defVar, [⟨.var, "LF@x"⟩]⟩,
    ⟨7, .move, [⟨.var, "LF@x"⟩, ⟨.literal .bool, "true"⟩]⟩, ⟨8, .popFrame, []⟩]⟩

/-- The machine that runs it. -/
def shadowingMachine : Machine := ⟨⟨shadowing.instructions, {}⟩, .accepting⟩

/-- The frames of that program when the outer variable is declared and the inner scope
is about to be opened. -/
def shadowingFrames : Frames := { locals := ⟨[⟨[("x", none)]⟩]⟩, temporary := some {} }

theorem inner_scope_isolated :
    let state : State := { frames := shadowingFrames, next := 5 }
    let entered : State := { frames := { locals := ⟨[{}, ⟨[("x", none)]⟩]⟩ }, next := 6 }
    Code.load shadowing = .ok shadowingMachine.code ∧
    Reached shadowingMachine {} state ∧
    shadowingMachine.step state = .running entered ∧
    (shadowingMachine.after 3 entered).frames.depth = 1 ∧
    (shadowingMachine.after 3 entered).frames.locals = ⟨[⟨[("x", none)]⟩]⟩ ∧
    (∃ before top, 3 = before + 1 ∧
      (shadowingMachine.after before entered).frames.locals.top? = some top ∧
      (shadowingMachine.after 3 entered).frames.temporary = some top) ∧
    ∃ enteredToo, shadowingMachine.step (state.bare.onto [{}]) = .running enteredToo ∧
      ∃ inner : State, shadowingMachine.after 3 entered = inner.onto [⟨[("x", none)]⟩] ∧
        shadowingMachine.after 3 enteredToo = inner.onto [{}] := by
  intro state entered
  have loaded : Code.load shadowing = .ok shadowingMachine.code := load_of_listed rfl rfl rfl
  have reached : Reached shadowingMachine {} state :=
    .step (.step (.step (.step .initial rfl) rfl) rfl) rfl
  have ran : shadowingMachine.step state = .running entered := rfl
  have back : (shadowingMachine.after 3 entered).frames.depth = 1 := rfl
  have inside : ∀ earlier < 3,
      (shadowingMachine.after earlier entered).frames.depth ≠ state.frames.depth := by
    decide
  obtain ⟨_, left, independent⟩ := local_scopes_isolated rfl rfl ran 3 inside
  obtain ⟨enteredToo, ranToo, same, _⟩ := independent [{}] rfl
  exact ⟨loaded, reached, ran, back, (left back).1, (left back).2, enteredToo, ranToo, same⟩

end Framecode.Engine
