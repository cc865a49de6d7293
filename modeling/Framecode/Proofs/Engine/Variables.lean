import Framecode.Proofs.Engine.Steps

/-! Variables by what they hold. A variable holds what its frame has under its name, an
argument is a target exactly when it names a variable that is declared, and a variable
that is assigned to holds just that value. -/
namespace Framecode.Engine

/-- A declared variable that is assigned to has the slot it is given. -/
theorem slot_assign {frame : Frame} {name : String} {old slot : Slot}
    (declared : frame.slot? name = some old) : (frame.assign name slot).slot? name = some slot := by
  obtain ⟨slots⟩ := frame
  simp only [Frame.slot?, Frame.assign] at declared ⊢
  induction slots with
  | nil => cases declared
  | cons entry rest ih =>
    rw [List.map_cons, List.lookup_cons]
    by_cases here : entry.1 = name
    · rw [if_pos here, beq_self_eq_true]
    · have other : (name == entry.1) = false := beq_eq_false_iff_ne.mpr (Ne.symm here)
      rw [List.lookup_cons, other] at declared
      rw [if_neg here, other]
      exact ih declared

/-- A variable is assigned to without a change to any other one. -/
theorem slot_assign_other {frame : Frame} {name changed : String} (other : name ≠ changed)
    (slot : Slot) : (frame.assign changed slot).slot? name = frame.slot? name := by
  obtain ⟨slots⟩ := frame
  simp only [Frame.slot?, Frame.assign]
  induction slots with
  | nil => rfl
  | cons entry rest ih =>
    rw [List.map_cons, List.lookup_cons, List.lookup_cons, ih]
    by_cases here : entry.1 = changed
    · rw [if_pos here, here, beq_eq_false_iff_ne.mpr other]
    · rw [if_neg here]

/-- A variable that is declared has no value. -/
theorem slot_declare {frame : Frame} {name : String} (fresh : frame.slot? name = none) :
    (frame.declare name).slot? name = some none := by
  have absent : frame.contains name = false := by rw [Frame.contains, fresh, Option.isSome_none]
  rw [Frame.slot?] at fresh
  rw [Frame.declare, if_neg (by simp [absent]), Frame.slot?, List.lookup_append, fresh]
  simp

/-- A variable is declared without a change to any other one. -/
theorem slot_declare_other {frame : Frame} {name declared : String} (other : name ≠ declared) :
    (frame.declare declared).slot? name = frame.slot? name := by
  rw [Frame.declare]
  split
  · rfl
  · rw [Frame.slot?, List.lookup_append, List.lookup_cons, beq_eq_false_iff_ne.mpr other,
      List.lookup_nil, Option.or_none, Frame.slot?]

namespace Frames

/-- The frame of a role, once it is changed. -/
theorem frame_modify (frames : Frames) (role : FrameRole) (change : Frame → Frame) :
    (frames.modify role change).frame? role = (frames.frame? role).map change := by
  obtain ⟨globals, ⟨items⟩, temporary⟩ := frames
  cases role with
  | globalFrame | temporaryFrame => rfl
  | localFrame => cases items <;> rfl

/-- A variable has a slot exactly when its frame exists and has that slot under its name. -/
theorem contents_ok_iff {frames : Frames} {var : VarRef} {slot : Slot} :
    frames.contents var = .ok slot ↔
      ∃ frame, frames.frame? var.frame = some frame ∧ frame.slot? var.name = some slot := by
  unfold contents Frames.frame
  cases frames.frame? var.frame with
  | none => simp [bind, Except.bind]
  | some frame =>
    simp only [bind, Except.bind, Option.some.injEq, exists_eq_left']
    cases frame.slot? var.name with
    | none => simp [throw, throwThe, MonadExceptOf.throw]
    | some held => simp [pure, Except.pure]

/-- A variable can be declared exactly when its frame exists and has no slot under its name. -/
theorem checkFresh_ok_iff {frames : Frames} {var : VarRef} :
    frames.checkFresh var = .ok () ↔
      ∃ frame, frames.frame? var.frame = some frame ∧ frame.slot? var.name = none := by
  unfold checkFresh Frames.frame
  cases frames.frame? var.frame with
  | none => simp [bind, Except.bind]
  | some frame =>
    simp only [bind, Except.bind, Option.some.injEq, exists_eq_left']
    rw [← Option.not_isSome_iff_eq_none, ← Frame.contains]
    cases frame.contains var.name with
    | false => simp [pure, Except.pure]
    | true => simp [throw, throwThe, MonadExceptOf.throw]

theorem variableOf_ok_iff {arg : Argument} {var : VarRef} :
    variableOf arg = .ok var ↔ arg.varRef = .ok var := by
  unfold variableOf
  cases arg.varRef <;> simp

/-- An argument is a target exactly when it names a variable that is declared. -/
theorem targetOf_ok_iff {frames : Frames} {arg : Argument} {var : VarRef} :
    frames.targetOf arg = .ok var ↔
      arg.varRef = .ok var ∧ ∃ slot, frames.contents var = .ok slot := by
  simp only [targetOf, bind_ok_iff, variableOf_ok_iff, pure, Except.pure, Except.ok.injEq]
  constructor
  · rintro ⟨_, named, slot, held, rfl⟩
    exact ⟨named, slot, held⟩
  · rintro ⟨named, slot, held⟩
    exact ⟨var, named, slot, held, rfl⟩

/-- A variable that is declared holds what is stored in it. -/
theorem contents_setSlot {frames : Frames} {var : VarRef} {old slot : Slot}
    (declared : frames.contents var = .ok old) :
    (frames.setSlot var slot).contents var = .ok slot := by
  obtain ⟨frame, found, held⟩ := contents_ok_iff.mp declared
  refine contents_ok_iff.mpr ⟨frame.assign var.name slot, ?_, slot_assign held⟩
  rw [setSlot, frame_modify, found, Option.map_some]

/-- A target holds what is stored in it. -/
theorem contents_of_target {frames : Frames} {arg : Argument} {var : VarRef}
    (targeted : frames.targetOf arg = .ok var) (slot : Slot) :
    arg.varRef = .ok var ∧ (frames.setSlot var slot).contents var = .ok slot := by
  obtain ⟨named, old, declared⟩ := targetOf_ok_iff.mp targeted
  exact ⟨named, contents_setSlot declared⟩

end Frames

end Framecode.Engine
