import Framecode.Proofs.Engine.Agreement
import Framecode.Proofs.Engine.Positions
import Framecode.Proofs.Engine.Scopes
import Framecode.Proofs.Engine.Variables

/-! Lifetimes of variables. A frame keeps its identity while it moves: PUSHFRAME takes it from
the temporary place to the stack, and POPFRAME back. It is followed here from place to place,
and as long as it is there, what has been declared in it stays declared and what has been
assigned stays assigned. A frame is lost only as a whole, from the temporary place. -/
namespace Framecode.Engine

/-! ## Places of frames -/

/-- Where a frame is kept: as the global one, on the stack at a height counted from the bottom,
or as the temporary one. -/
inductive Place where
  | globals
  | stacked (height : Nat)
  | temporary
  deriving DecidableEq, Repr

/-- The frame that is kept in a place. -/
def Frames.at? (frames : Frames) : Place → Option Frame
  | .globals => some frames.globals
  | .stacked height => frames.locals.items.reverse[height]?
  | .temporary => frames.temporary

/-- The place of the frame that a role names. -/
def Frames.placeOf (frames : Frames) : FrameRole → Place
  | .globalFrame => .globals
  | .localFrame => .stacked (frames.depth - 1)
  | .temporaryFrame => .temporary

/-- Where an instruction takes the frame in a place, given the depth of the stack. PUSHFRAME
puts the temporary frame on the stack, and POPFRAME makes the top of it the temporary one. A
temporary frame that is in the way of another one is lost. -/
def Place.moved (opcode : Opcode) (depth : Nat) : Place → Option Place
  | .globals => some .globals
  | .stacked height =>
    if opcode = .popFrame ∧ height + 1 = depth then some .temporary else some (.stacked height)
  | .temporary =>
    if opcode = .pushFrame then some (.stacked depth)
    else if opcode = .createFrame ∨ opcode = .popFrame then none
    else some .temporary

variable {machine : Machine} {state next : State} {frames : Frames} {opcode : Opcode}

/-- The item on top of a stack lies as high as there are items under it. -/
theorem getElem_reverse_cons {α : Type} (top : α) (rest : List α) (height : Nat) :
    (top :: rest).reverse[height]? =
      if height = rest.length then some top else rest.reverse[height]? := by
  rw [List.reverse_cons]
  rcases Nat.lt_trichotomy height rest.length with below | rfl | above
  · rw [if_neg (by omega), List.getElem?_append_left (by simpa using below)]
  · rw [if_pos rfl, List.getElem?_append_right (by simp)]
    simp
  · rw [if_neg (by omega), List.getElem?_eq_none (by simp; omega),
      List.getElem?_eq_none (by simp; omega)]

/-- The frame of a role is the one in the place of that role. -/
theorem frame_at (frames : Frames) (role : FrameRole) :
    frames.frame? role = frames.at? (frames.placeOf role) := by
  obtain ⟨globals, ⟨items⟩, temporary⟩ := frames
  cases role with
  | globalFrame | temporaryFrame => rfl
  | localFrame =>
    cases items with
    | nil => rfl
    | cons top rest =>
      simp only [Frames.at?, Frames.placeOf, Frames.depth, Stack.size, List.length_cons,
        Nat.add_sub_cancel, getElem_reverse_cons, if_pos]
      rfl

/-- To change the frame of a role is to change the one in its place and no other. -/
theorem at_modify (frames : Frames) (role : FrameRole) (change : Frame → Frame) (place : Place) :
    (frames.modify role change).at? place =
      if place = frames.placeOf role then (frames.at? place).map change else frames.at? place := by
  obtain ⟨globals, ⟨items⟩, temporary⟩ := frames
  cases role with
  | globalFrame | temporaryFrame => cases place <;> simp [Frames.modify, Frames.at?, Frames.placeOf]
  | localFrame =>
    cases place with
    | globals | temporary => simp [Frames.modify, Frames.at?, Frames.placeOf]
    | stacked height =>
      cases items with
      | nil => simp [Frames.modify, Frames.at?, Stack.modifyTop]
      | cons top rest =>
        simp only [Frames.modify, Frames.at?, Stack.modifyTop, Frames.placeOf, Frames.depth,
          Stack.size, List.length_cons, Nat.add_sub_cancel, Place.stacked.injEq,
          getElem_reverse_cons]
        split <;> rfl

/-! ## What a step does to the frames -/

/-- What an instruction can do to a slot: a DEFVAR declares a variable that was not there, and
any other instruction gives a value to one that was. -/
inductive SlotChange (opcode : Opcode) : Option Slot → Option Slot → Prop where
  | declared (defining : opcode = .defVar) : SlotChange opcode none (some none)
  | assigned (other : opcode ≠ .defVar) (old : Slot) (value : Value) :
      SlotChange opcode (some old) (some (some value))

/-- How an instruction leaves the frames. -/
structure KeepsFrames (opcode : Opcode) (before after : Frames) : Prop where
  /-- A frame is lost only from the temporary place, by a CREATEFRAME or a POPFRAME. -/
  lost : ∀ place : Place, place.moved opcode before.depth = none →
    place = .temporary ∧ (opcode = .createFrame ∨ opcode = .popFrame)
  /-- No two frames are taken to one place. -/
  apart : ∀ place other later, before.at? place ≠ none → before.at? other ≠ none →
    place.moved opcode before.depth = some later → other.moved opcode before.depth = some later →
    place = other
  /-- A frame that is not lost is where it is taken, and the same but for one slot of one
  frame. -/
  kept : ∃ spot changed, ∀ place frame later, before.at? place = some frame →
    place.moved opcode before.depth = some later → ∃ same, after.at? later = some same ∧
      ∀ name, same.slot? name = frame.slot? name ∨
        (place = spot ∧ name = changed ∧ SlotChange opcode (frame.slot? name) (same.slot? name))
  /-- There are no other frames, apart from the empty one that a CREATEFRAME makes. -/
  made : ∀ later frame, after.at? later = some frame →
    (∃ place, before.at? place ≠ none ∧ place.moved opcode before.depth = some later) ∨
      (opcode = .createFrame ∧ later = .temporary ∧ frame = {})

/-- An opcode that takes no frame from one place to another. -/
def Still (opcode : Opcode) : Prop :=
  opcode ≠ .createFrame ∧ opcode ≠ .pushFrame ∧ opcode ≠ .popFrame

private theorem moved_still (still : Still opcode) (depth : Nat) (place : Place) :
    place.moved opcode depth = some place := by
  obtain ⟨notCreate, notPush, notPop⟩ := still
  cases place <;> simp [Place.moved, notCreate, notPush, notPop]

private theorem moved_lost {depth : Nat} {place : Place} (gone : place.moved opcode depth = none) :
    place = .temporary ∧ (opcode = .createFrame ∨ opcode = .popFrame) := by
  cases place with
  | globals => cases gone
  | stacked height =>
    rw [Place.moved] at gone
    split at gone <;> cases gone
  | temporary =>
    simp only [Place.moved] at gone
    grind

private theorem height_lt_depth {height : Nat} (held : frames.at? (.stacked height) ≠ none) :
    height < frames.depth := by
  rw [Frames.at?, ne_eq, List.getElem?_eq_none_iff, List.length_reverse] at held
  exact Nat.not_le.mp held

private theorem moved_apart {place other later : Place} (held : frames.at? place ≠ none)
    (heldToo : frames.at? other ≠ none) (taken : place.moved opcode frames.depth = some later)
    (takenToo : other.moved opcode frames.depth = some later) : place = other := by
  have low : ∀ height, frames.at? (.stacked height) ≠ none → height < frames.depth :=
    fun _ => height_lt_depth
  cases place <;> cases other <;> grind [Place.moved]

/-- Frames are kept as soon as every one that is not lost is found again and no others are. -/
theorem keepsFrames_of {before after : Frames} {spot : Place} {changed : String}
    (kept : ∀ place frame later, before.at? place = some frame →
      place.moved opcode before.depth = some later → ∃ same, after.at? later = some same ∧
        ∀ name, same.slot? name = frame.slot? name ∨
          (place = spot ∧ name = changed ∧ SlotChange opcode (frame.slot? name) (same.slot? name)))
    (made : ∀ later frame, after.at? later = some frame →
      (∃ place, before.at? place ≠ none ∧ place.moved opcode before.depth = some later) ∨
        (opcode = .createFrame ∧ later = .temporary ∧ frame = {})) :
    KeepsFrames opcode before after where
  lost _ := moved_lost
  apart _ _ _ := moved_apart
  kept := ⟨spot, changed, kept⟩
  made := made

private theorem keepsFrames_self (still : Still opcode) (frames : Frames) :
    KeepsFrames opcode frames frames := by
  refine @keepsFrames_of opcode frames frames .globals "" ?_ ?_
  · intro place frame later held taken
    rw [moved_still still] at taken
    cases taken
    exact ⟨frame, held, fun name => .inl rfl⟩
  · intro later frame held
    exact .inl ⟨later, by simp [held], moved_still still _ _⟩

/-- A change of one slot in the frame of a role keeps all frames. -/
theorem keepsFrames_modify {role : FrameRole} {change : Frame → Frame} {changed : String}
    (still : Still opcode)
    (others : ∀ frame name, name ≠ changed → (change frame).slot? name = frame.slot? name)
    (changes : ∀ frame, frames.frame? role = some frame →
      SlotChange opcode (frame.slot? changed) ((change frame).slot? changed)) :
    KeepsFrames opcode frames (frames.modify role change) := by
  refine @keepsFrames_of opcode frames _ (frames.placeOf role) changed ?_ ?_
  · intro place frame later held taken
    rw [moved_still still] at taken
    cases taken
    rw [at_modify, held]
    by_cases here : place = frames.placeOf role
    · rw [if_pos here]
      refine ⟨change frame, rfl, fun name => ?_⟩
      by_cases same : name = changed
      · subst same
        rw [here, ← frame_at] at held
        exact .inr ⟨here, rfl, changes frame held⟩
      · exact .inl (others frame name same)
    · rw [if_neg here]
      exact ⟨frame, rfl, fun name => .inl rfl⟩
  · intro later frame held
    refine .inl ⟨later, ?_, moved_still still _ _⟩
    intro absent
    rw [at_modify, absent] at held
    split at held <;> cases held

private theorem keepsFrames_setSlot {arg : Argument} {var : VarRef} (still : Still opcode)
    (other : opcode ≠ .defVar) (targeted : frames.targetOf arg = .ok var) (value : Value) :
    KeepsFrames opcode frames (frames.setSlot var (some value)) := by
  refine keepsFrames_modify still (fun frame name different => slot_assign_other different _) ?_
  intro frame held
  obtain ⟨_, old, declared⟩ := Frames.targetOf_ok_iff.mp targeted
  obtain ⟨found, heldToo, slot⟩ := Frames.contents_ok_iff.mp declared
  cases held.symm.trans heldToo
  rw [slot, slot_assign slot]
  exact .assigned other old value

private theorem keepsFrames_addVariable {var : VarRef} (fresh : frames.checkFresh var = .ok ()) :
    KeepsFrames .defVar frames (frames.addVariable var) := by
  refine keepsFrames_modify (by simp [Still]) (fun frame name => slot_declare_other) ?_
  intro frame held
  obtain ⟨found, heldToo, absent⟩ := Frames.checkFresh_ok_iff.mp fresh
  cases held.symm.trans heldToo
  rw [absent, slot_declare absent]
  exact .declared rfl

private theorem keepsFrames_create (frames : Frames) :
    KeepsFrames .createFrame frames frames.create := by
  refine @keepsFrames_of .createFrame frames _ .globals "" ?_ ?_
  · intro place frame later held taken
    cases place with
    | temporary => cases taken
    | globals | stacked height =>
      cases taken
      exact ⟨frame, held, fun name => .inl rfl⟩
  · intro later frame held
    cases later with
    | temporary =>
      cases held
      exact .inr ⟨rfl, rfl, rfl⟩
    | globals => exact .inl ⟨.globals, Option.some_ne_none _, rfl⟩
    | stacked height =>
      exact .inl ⟨.stacked height, Option.ne_none_iff_exists'.mpr ⟨frame, held⟩, rfl⟩

private theorem keepsFrames_push {result : Frames} (pushed : frames.push = .ok result) :
    KeepsFrames .pushFrame frames result := by
  obtain ⟨pushedFrame, pending, rfl⟩ := push_ok_iff.mp pushed
  have placed : ∀ height,
      (Frames.mk frames.globals (frames.locals.push pushedFrame) none).at? (.stacked height) =
        if height = frames.depth then some pushedFrame else frames.at? (.stacked height) :=
    getElem_reverse_cons pushedFrame frames.locals.items
  refine @keepsFrames_of .pushFrame frames _ .globals "" ?_ ?_
  · intro place frame later held taken
    cases place with
    | globals =>
      cases taken
      exact ⟨frame, held, fun name => .inl rfl⟩
    | stacked height =>
      have low := height_lt_depth (Option.ne_none_iff_exists'.mpr ⟨frame, held⟩)
      cases taken
      rw [placed, if_neg (by omega)]
      exact ⟨frame, held, fun name => .inl rfl⟩
    | temporary =>
      cases taken
      cases pending.symm.trans held
      exact ⟨pushedFrame, by rw [placed, if_pos rfl], fun name => .inl rfl⟩
  · intro later frame held
    cases later with
    | globals => exact .inl ⟨.globals, Option.some_ne_none _, rfl⟩
    | temporary => cases held
    | stacked height =>
      rw [placed] at held
      split at held
      · rename_i top
        subst top
        exact .inl ⟨.temporary, Option.ne_none_iff_exists'.mpr ⟨_, pending⟩, rfl⟩
      · exact .inl ⟨.stacked height, Option.ne_none_iff_exists'.mpr ⟨frame, held⟩, rfl⟩

private theorem keepsFrames_pop {result : Frames} (popped : frames.pop = .ok result) :
    KeepsFrames .popFrame frames result := by
  obtain ⟨top, lies, rfl⟩ := pop_ok_iff.mp popped
  have items := items_of_top lies
  have depth : frames.depth = frames.locals.pop.items.length + 1 := by
    rw [Frames.depth, Stack.size, items, List.length_cons]
  have placed : ∀ height, frames.at? (.stacked height) =
      if height + 1 = frames.depth then some top
      else (Frames.mk frames.globals frames.locals.pop (some top)).at? (.stacked height) := by
    intro height
    rw [Frames.at?, items, getElem_reverse_cons, depth]
    simp only [Nat.add_right_cancel_iff, Frames.at?]
  refine @keepsFrames_of .popFrame frames _ .globals "" ?_ ?_
  · intro place frame later held taken
    cases place with
    | globals =>
      cases taken
      exact ⟨frame, held, fun name => .inl rfl⟩
    | temporary => cases taken
    | stacked height =>
      rw [placed] at held
      rw [Place.moved] at taken
      by_cases highest : height + 1 = frames.depth
      · rw [if_pos highest] at held
        rw [if_pos ⟨rfl, highest⟩] at taken
        cases held
        cases taken
        exact ⟨top, rfl, fun name => .inl rfl⟩
      · rw [if_neg highest] at held
        rw [if_neg (fun both => highest both.2)] at taken
        cases taken
        exact ⟨frame, held, fun name => .inl rfl⟩
  · intro later frame held
    cases later with
    | globals => exact .inl ⟨.globals, Option.some_ne_none _, rfl⟩
    | temporary =>
      refine .inl ⟨.stacked frames.locals.pop.items.length, ?_, ?_⟩
      · rw [placed, if_pos depth.symm]
        exact Option.some_ne_none _
      · rw [Place.moved, if_pos ⟨rfl, depth.symm⟩]
    | stacked height =>
      have low := height_lt_depth (Option.ne_none_iff_exists'.mpr ⟨frame, held⟩)
      have under : height + 1 ≠ frames.depth := by
        rw [depth]
        exact Nat.ne_of_lt (Nat.succ_lt_succ low)
      refine .inl ⟨.stacked height, ?_, ?_⟩
      · rw [placed, if_neg under, held]
        exact Option.some_ne_none _
      · rw [Place.moved, if_neg (fun both => under both.2)]

/-- The instructions that declare a variable or move a frame are told by their operations. -/
theorem opcode_iff_operation {instr : Instruction} {operation : Operation}
    (found : operation? instr = some operation) :
    (instr.opcode = .defVar ↔ ∃ target, operation = .define target) ∧
      (instr.opcode = .createFrame ↔ operation = .createFrame) ∧
      (instr.opcode = .pushFrame ↔ operation = .pushFrame) ∧
      (instr.opcode = .popFrame ↔ operation = .popFrame) := by
  obtain ⟨order, opcode, args⟩ := instr
  rcases args with _ | ⟨first, _ | ⟨second, _ | ⟨third, _ | ⟨fourth, more⟩⟩⟩⟩ <;>
    cases opcode <;> cases found <;> simp

/-- A step keeps the frames as its instruction does. -/
theorem keepsFrames_of_step (ran : machine.step state = .running next) :
    ∃ instr, machine.code.fetch? state.next = some instr ∧
      KeepsFrames instr.opcode state.frames next.frames := by
  obtain ⟨instr, operation, effect, fetched, found, planned, _, rfl⟩ := step_running_iff.mp ran
  refine ⟨instr, fetched, ?_⟩
  obtain ⟨defines, creates, pushes, pops⟩ := opcode_iff_operation found
  cases planned with
  | define named fresh =>
    rw [defines.mpr ⟨_, rfl⟩]
    exact keepsFrames_addVariable fresh
  | createFrame =>
    rw [creates.mpr rfl]
    exact keepsFrames_create state.frames
  | pushFrame pushed =>
    rw [pushes.mpr rfl]
    simp only [State.apply, State.fetched, pushed]
    exact keepsFrames_push pushed
  | popFrame popped =>
    rw [pops.mpr rfl]
    simp only [State.apply, State.fetched, popped]
    exact keepsFrames_pop popped
  | store _ targeted | read _ targeted | pop targeted =>
    exact keepsFrames_setSlot (by simp [Still, creates, pushes, pops]) (by simp [defines])
      targeted _
  | _ => exact keepsFrames_self (by simp [Still, creates, pushes, pops]) state.frames

/-! ## Following a frame -/

/-- A variable has a value. -/
def Frame.Assigned (frame : Frame) (name : String) : Prop :=
  ∃ value, frame.slot? name = some (some value)

/-- What is declared in one frame is declared in another one, and what is assigned in it is
assigned in the other. -/
structure Frame.Grows (before after : Frame) : Prop where
  declared : ∀ name, before.contains name = true → after.contains name = true
  assigned : ∀ name, before.Assigned name → after.Assigned name

private theorem grows_refl (frame : Frame) :
    frame.Grows frame := ⟨fun _ held => held, fun _ held => held⟩

private theorem grows_trans {first second third : Frame} (left : first.Grows second)
    (right : second.Grows third) : first.Grows third :=
  ⟨fun name held => right.declared name (left.declared name held),
    fun name held => right.assigned name (left.assigned name held)⟩

/-- No change of a slot takes a declaration or a value away. -/
theorem grows_of_changes {before after : Frame}
    (changes : ∀ name, after.slot? name = before.slot? name ∨
      SlotChange opcode (before.slot? name) (after.slot? name)) : before.Grows after where
  declared := by
    intro name held
    rw [Frame.contains] at held ⊢
    rcases changes name with same | change
    · rw [same]
      exact held
    · generalize before.slot? name = old at held change
      generalize after.slot? name = new at change
      cases change <;> simp_all
  assigned := by
    rintro name ⟨value, held⟩
    rcases changes name with same | change
    · exact ⟨value, same.trans held⟩
    · rw [held] at change
      rw [Frame.Assigned]
      generalize after.slot? name = new at change
      cases change with
      | assigned other old value => exact ⟨value, rfl⟩

/-- A frame that is not lost has grown at most. -/
theorem grows_of_kept {before after : Frames} (keeps : KeepsFrames opcode before after)
    {place later : Place} {frame : Frame} (held : before.at? place = some frame)
    (taken : place.moved opcode before.depth = some later) :
    ∃ grown, after.at? later = some grown ∧ frame.Grows grown := by
  obtain ⟨spot, changed, kept⟩ := keeps.kept
  obtain ⟨grown, heldLater, changes⟩ := kept place frame later held taken
  exact ⟨grown, heldLater, grows_of_changes fun name => (changes name).imp_right (·.2.2)⟩

/-- Where the frame in a place is some steps later, if it is not lost on the way. -/
def Machine.follow (machine : Machine) : Nat → State → Place → Option Place
  | 0, _, place => some place
  | steps + 1, state, place =>
    match machine.code.fetch? state.next, machine.step state with
    | some instr, .running next =>
      (place.moved instr.opcode state.frames.depth).bind (machine.follow steps next)
    | _, _ => some place

private theorem follow_running {instr : Instruction}
    (fetched : machine.code.fetch? state.next = some instr)
    (ran : machine.step state = .running next) (steps : Nat) (place : Place) :
    machine.follow (steps + 1) state place =
      (place.moved instr.opcode state.frames.depth).bind (machine.follow steps next) := by
  rw [Machine.follow, fetched, ran]

private theorem follow_finished {outcome : Outcome} {last : State}
    (ran : machine.step state = .finished outcome last) (steps : Nat) (place : Place) :
    machine.follow (steps + 1) state place = some place := by
  rw [Machine.follow, ran]
  cases machine.code.fetch? state.next <;> rfl

/-- The global frame is never lost. -/
theorem follow_globals (machine : Machine) (steps : Nat) (state : State) :
    machine.follow steps state .globals = some .globals := by
  induction steps generalizing state with
  | zero => rfl
  | succ steps ih =>
    cases ran : machine.step state with
    | finished outcome last => exact follow_finished ran steps .globals
    | running next =>
      obtain ⟨instr, fetched, _⟩ := keepsFrames_of_step ran
      rw [follow_running fetched ran]
      exact ih next

/-- A frame only grows while it is followed. -/
theorem grows_of_follow {steps : Nat} {place later : Place} {frame : Frame}
    (held : state.frames.at? place = some frame)
    (followed : machine.follow steps state place = some later) :
    ∃ grown, (machine.after steps state).frames.at? later = some grown ∧ frame.Grows grown := by
  induction steps generalizing state place frame with
  | zero =>
    cases followed
    exact ⟨frame, held, grows_refl frame⟩
  | succ steps ih =>
    cases ran : machine.step state with
    | finished outcome last =>
      rw [follow_finished ran] at followed
      cases followed
      rw [after_finished ran, frames_of_finished ran]
      exact ⟨frame, held, grows_refl frame⟩
    | running next =>
      obtain ⟨instr, fetched, keeps⟩ := keepsFrames_of_step ran
      rw [follow_running fetched ran] at followed
      obtain ⟨between, taken, rest⟩ := Option.bind_eq_some_iff.mp followed
      obtain ⟨grown, heldNext, first⟩ := grows_of_kept keeps held taken
      obtain ⟨last, heldLast, second⟩ := ih heldNext rest
      rw [after_running ran]
      exact ⟨last, heldLast, grows_trans first second⟩

/-- A frame that is no longer there was lost on the way: it was the temporary one when a
CREATEFRAME or a POPFRAME put another one in its place. -/
theorem lost_of_follow {steps : Nat} {place : Place}
    (gone : machine.follow steps state place = none) :
    ∃ earlier instr, earlier < steps ∧ machine.follow earlier state place = some .temporary ∧
      machine.code.fetch? (machine.after earlier state).next = some instr ∧
      (instr.opcode = .createFrame ∨ instr.opcode = .popFrame) := by
  induction steps generalizing state place with
  | zero => cases gone
  | succ steps ih =>
    cases ran : machine.step state with
    | finished outcome last =>
      rw [follow_finished ran] at gone
      cases gone
    | running next =>
      obtain ⟨instr, fetched, keeps⟩ := keepsFrames_of_step ran
      rw [follow_running fetched ran] at gone
      cases taken : place.moved instr.opcode state.frames.depth with
      | none =>
        obtain ⟨rfl, replaces⟩ := keeps.lost place taken
        exact ⟨0, instr, Nat.succ_pos steps, rfl, fetched, replaces⟩
      | some between =>
        rw [taken, Option.bind_some] at gone
        obtain ⟨earlier, other, less, followed, fetchedLater, replaces⟩ := ih gone
        refine ⟨earlier + 1, other, Nat.succ_lt_succ less, ?_, ?_, replaces⟩
        · rw [follow_running fetched ran, taken, Option.bind_some, followed]
        · rw [after_running ran, fetchedLater]

/-- TYPE names the type of a variable that has a value. -/
theorem typeName_of_assigned {arg : Argument} {var : VarRef} {frame : Frame}
    (kind : arg.kind = .var) (named : arg.varRef = .ok var)
    (held : frames.frame? var.frame = some frame) (assigned : frame.Assigned var.name) :
    ∃ text, text ≠ "" ∧ (Formula.typeName arg).value frames = .ok (.string text) := by
  obtain ⟨value, slot⟩ := assigned
  have contents := Frames.contents_ok_iff.mpr ⟨frame, held, slot⟩
  refine ⟨value.type.name, by cases value.type <;> decide, ?_⟩
  simp only [Formula.value, Frames.slotOf, kind, Frames.variableOf, named, bind, Except.bind,
    contents, typeNameOf, ↓reduceIte]
  rfl

/-- Declarations and assignments are permanent. A step keeps every frame but a temporary one
that a CREATEFRAME or a POPFRAME replaces, and changes at most one slot of one frame: a DEFVAR
declares one name there, and any other instruction gives a value to a declared one. The last
step of a run changes none. So for as long as a frame is there, whatever has been declared in it
is declared, whatever has been assigned is assigned, and TYPE has a name for it. The global
frame is there always, and another one until it is replaced as the temporary one. -/
theorem declarations_are_permanent (machine : Machine) (state : State) :
    (∀ next, machine.step state = .running next → ∃ instr,
      machine.code.fetch? state.next = some instr ∧
        KeepsFrames instr.opcode state.frames next.frames) ∧
    (∀ outcome last, machine.step state = .finished outcome last → last.frames = state.frames) ∧
    (∀ steps, machine.follow steps state .globals = some .globals) ∧
    (∀ steps place, machine.follow steps state place = none → ∃ earlier instr, earlier < steps ∧
      machine.follow earlier state place = some .temporary ∧
      machine.code.fetch? (machine.after earlier state).next = some instr ∧
      (instr.opcode = .createFrame ∨ instr.opcode = .popFrame)) ∧
    ∀ steps place later frame, state.frames.at? place = some frame →
      machine.follow steps state place = some later →
      ∃ kept, (machine.after steps state).frames.at? later = some kept ∧
        (∀ name, frame.contains name = true → kept.contains name = true) ∧
        ∀ name, frame.Assigned name → kept.Assigned name ∧
          ∀ role arg, (machine.after steps state).frames.placeOf role = later →
            arg.kind = .var → arg.varRef = .ok ⟨role, name⟩ →
            ∃ text, text ≠ "" ∧
              (Formula.typeName arg).value (machine.after steps state).frames =
                .ok (.string text) := by
  refine ⟨fun next => keepsFrames_of_step, fun outcome last => frames_of_finished,
    fun steps => follow_globals machine steps state, fun steps place => lost_of_follow, ?_⟩
  intro steps place later frame held followed
  obtain ⟨kept, heldLater, grows⟩ := grows_of_follow held followed
  refine ⟨kept, heldLater, grows.declared, fun name assigned => ?_⟩
  have still := grows.assigned name assigned
  refine ⟨still, fun role arg here kind named => ?_⟩
  rw [← here, ← frame_at] at heldLater
  exact typeName_of_assigned kind named heldLater still

/-- A program that puts a frame with a variable on the stack, makes another temporary frame,
and loses that one when it takes the first frame back. -/
def retrieving : Program :=
  ⟨[⟨1, .createFrame, []⟩, ⟨2, .defVar, [⟨.var, "TF@x"⟩]⟩,
    ⟨3, .move, [⟨.var, "TF@x"⟩, ⟨.literal .nil, "nil"⟩]⟩, ⟨4, .pushFrame, []⟩,
    ⟨5, .createFrame, []⟩, ⟨6, .popFrame, []⟩]⟩

/-- The machine that runs it. -/
def retrievingMachine : Machine := ⟨⟨retrieving.instructions, {}⟩, .accepting⟩

theorem retrieved_frame_keeps_variable :
    let state : State := { frames := { temporary := some ⟨[("x", some .nil)]⟩ }, next := 4 }
    Code.load retrieving = .ok retrievingMachine.code ∧ Reached retrievingMachine {} state ∧
    retrievingMachine.follow 2 state .temporary = some (.stacked 0) ∧
    retrievingMachine.follow 3 state .temporary = some .temporary ∧
    retrievingMachine.follow 1 (retrievingMachine.after 2 state) .temporary = none ∧
    ∃ kept, (retrievingMachine.after 3 state).frames.at? .temporary = some kept ∧
      kept.contains "x" = true ∧ kept.Assigned "x" ∧ ∃ text, text ≠ "" ∧
        (Formula.typeName ⟨.var, "TF@x"⟩).value (retrievingMachine.after 3 state).frames =
          .ok (.string text) := by
  intro state
  have loaded : Code.load retrieving = .ok retrievingMachine.code := load_of_listed rfl rfl rfl
  have reached : Reached retrievingMachine {} state := .step (.step (.step .initial rfl) rfl) rfl
  have followed : retrievingMachine.follow 3 state .temporary = some .temporary := rfl
  obtain ⟨kept, held, declared, assigned⟩ :=
    (declarations_are_permanent retrievingMachine state).2.2.2.2 3 .temporary .temporary _ rfl
      followed
  obtain ⟨still, typed⟩ := assigned "x" ⟨.nil, rfl⟩
  exact ⟨loaded, reached, rfl, followed, rfl, kept, held, declared "x" rfl, still,
    typed .temporaryFrame ⟨.var, "TF@x"⟩ rfl rfl rfl⟩

end Framecode.Engine
