import Framecode.Engine.Run
import Framecode.Proofs.Source.Grammar
import Mathlib.Logic.Function.Basic

/-! Other names for labels and variables. A state with other names in its frames is changed
by the same effects, once these are about the other names, and every look at the frames finds
the same or fails with the same cause: a name is compared with other names and is never looked
into. -/
namespace Framecode.Engine

/-- Other names for labels and for variables. Different names stay different, and no variable
loses its name. What becomes of names that a program does not have makes no difference to it. -/
structure Renaming where
  label : String → String
  var : String → String
  label_injective : Function.Injective label
  var_injective : Function.Injective var
  filled : ∀ name, name ≠ "" → var name ≠ ""

namespace Renaming

/-- The variable of the other name, in the same frame. -/
def ref (names : Renaming) (var : VarRef) : VarRef := { var with name := names.var var.name }

/-- A text that spells a variable, with its other name. Any other text stays as it is. -/
def spelling (names : Renaming) (text : String) : String :=
  match VarRef.parse text with
  | .ok var => (names.ref var).display
  | .error _ => text

end Renaming

/-! ## States and reports with other names -/

/-- A cause that is about the other names. -/
def Cause.rename (names : Renaming) : Cause → Cause
  | .duplicateLabel label => .duplicateLabel (names.label label)
  | .undefinedLabel label => .undefinedLabel (names.label label)
  | .redeclaration var => .redeclaration (names.ref var)
  | .undefinedVariable var => .undefinedVariable (names.ref var)
  | .unassignedVariable text => .unassignedVariable (names.spelling text)
  | other => other

/-- The end of a run, with the names in its fault changed. The fault is at the same order. -/
def Outcome.rename (names : Renaming) : Outcome → Outcome
  | .failed fault => .failed { fault with cause := fault.cause.rename names }
  | other => other

/-- A frame with other names. Its variables hold what they held. -/
def Frame.rename (names : Renaming) (frame : Frame) : Frame :=
  ⟨frame.slots.map fun entry => (names.var entry.1, entry.2)⟩

/-- Frames with other names. -/
def Frames.rename (names : Renaming) (frames : Frames) : Frames where
  globals := frames.globals.rename names
  locals := ⟨frames.locals.items.map (·.rename names)⟩
  temporary := frames.temporary.map (·.rename names)

/-- A state with other names in its frames. Nothing else is different. -/
def State.rename (names : Renaming) (state : State) : State :=
  { state with frames := state.frames.rename names }

/-- An effect on the variables of the other names. -/
def Effect.rename (names : Renaming) : Effect → Effect
  | .store var value => .store (names.ref var) value
  | .declare var => .declare (names.ref var)
  | .popTo var value => .popTo (names.ref var) value
  | other => other

/-- A step with other names. -/
def Progress.rename (names : Renaming) : Progress → Progress
  | .running state => .running (state.rename names)
  | .finished outcome state => .finished (outcome.rename names) (state.rename names)

/-- Labels under their other names. -/
def LabelTable.rename (names : Renaming) (table : LabelTable) : LabelTable :=
  ⟨table.entries.map fun entry => (names.label entry.1, entry.2)⟩

/-- What a check comes to under other names: a change of what it finds, or the cause about
the other names. -/
def Renaming.result {α β : Type} (names : Renaming) (change : α → β) :
    Except Cause α → Except Cause β
  | .ok found => .ok (change found)
  | .error cause => .error (cause.rename names)

variable {names : Renaming}

@[simp] theorem ref_frame (var : VarRef) : (names.ref var).frame = var.frame := rfl

@[simp] theorem ref_name (var : VarRef) : (names.ref var).name = names.var var.name := rfl

private theorem kind_rename (cause : Cause) : (cause.rename names).kind = cause.kind := by
  cases cause <;> rfl

/-- Other names do not change the status that a run ends with. -/
theorem status_rename (outcome : Outcome) : (outcome.rename names).status = outcome.status := by
  cases outcome with
  | completed | exited status => rfl
  | failed fault => exact congrArg Kind.exitCode (kind_rename fault.cause)

/-- Checks one after the other: it is enough that the later one is renamed at whatever the
earlier one finds. -/
theorem result_bind {α β γ δ : Type} {first : Except Cause α} {second : α → Except Cause β}
    {again : γ → Except Cause δ} {change : α → γ} {changeToo : β → δ}
    (later : ∀ found, again (change found) = names.result changeToo (second found)) :
    (names.result change first >>= again) = names.result changeToo (first >>= second) := by
  cases first with
  | error cause => rfl
  | ok found => exact later found

/-! ## Texts that spell variables -/

private theorem named_of_parse {text : String} {var : VarRef}
    (parsed : VarRef.parse text = .ok var) :
    var.name ≠ "" := by
  unfold VarRef.parse at parsed
  split at parsed
  · cases parsed
  · split at parsed
    · cases parsed
    · split at parsed
      · cases parsed
      · rename_i name _ _ _ filled
        cases parsed
        simpa using filled

/-- A text with the other name spells the variable of the other name, if it spelled one. -/
theorem parse_spelling (text : String) :
    VarRef.parse (names.spelling text) = (VarRef.parse text).map names.ref := by
  unfold Renaming.spelling
  cases parsed : VarRef.parse text with
  | error error => exact parsed
  | ok var => exact Source.parse_display (names.filled _ (named_of_parse parsed))

/-! ## Looking a name up -/

/-- In a table with other names, the other name has the entry of the name. -/
theorem lookup_rename {α : Type} {change : String → String} (injective : Function.Injective change)
    (entries : List (String × α)) (name : String) :
    (entries.map fun entry => (change entry.1, entry.2)).lookup (change name) =
      entries.lookup name := by
  induction entries with
  | nil => rfl
  | cons entry rest ih =>
    have compared : (change name == change entry.1) = (name == entry.1) := by
      rw [Bool.eq_iff_iff, beq_iff_eq, beq_iff_eq, injective.eq_iff]
    rw [List.map_cons, List.lookup_cons, List.lookup_cons, compared, ih]

theorem position_rename (table : LabelTable) (label : String) :
    (table.rename names).position? (names.label label) = table.position? label :=
  lookup_rename names.label_injective table.entries label

private theorem slot_rename (frame : Frame) (name : String) :
    (frame.rename names).slot? (names.var name) = frame.slot? name :=
  lookup_rename names.var_injective frame.slots name

private theorem contains_rename (frame : Frame) (name : String) :
    (frame.rename names).contains (names.var name) = frame.contains name := by
  rw [Frame.contains, slot_rename, Frame.contains]

private theorem declare_rename (frame : Frame) (name : String) :
    (frame.declare name).rename names = (frame.rename names).declare (names.var name) := by
  unfold Frame.declare
  rw [contains_rename]
  split
  · rfl
  · simp [Frame.rename]

private theorem assign_rename (frame : Frame) (name : String) (slot : Slot) :
    (frame.assign name slot).rename names = (frame.rename names).assign (names.var name) slot := by
  simp only [Frame.assign, Frame.rename, List.map_map, Frame.mk.injEq]
  refine List.map_congr_left fun entry _ => ?_
  simp only [Function.comp_apply, names.var_injective.eq_iff]
  split <;> rfl

namespace Frames

private theorem frame_rename (frames : Frames) (role : FrameRole) :
    (frames.rename names).frame role = names.result (·.rename names) (frames.frame role) := by
  obtain ⟨globals, ⟨items⟩, temporary⟩ := frames
  cases role with
  | globalFrame => rfl
  | localFrame => cases items <;> rfl
  | temporaryFrame => cases temporary <;> rfl

private theorem modify_rename {change changeToo : Frame → Frame}
    (changed : ∀ frame, (change frame).rename names = changeToo (frame.rename names))
    (frames : Frames) (role : FrameRole) :
    (frames.modify role change).rename names = (frames.rename names).modify role changeToo := by
  obtain ⟨globals, ⟨items⟩, temporary⟩ := frames
  cases role with
  | globalFrame => simp [modify, rename, changed]
  | localFrame => cases items <;> simp [modify, rename, Stack.modifyTop, changed]
  | temporaryFrame => cases temporary <;> simp [modify, rename, changed]

theorem contents_rename (frames : Frames) (var : VarRef) :
    (frames.rename names).contents (names.ref var) = names.result id (frames.contents var) := by
  rw [contents, ref_frame, frame_rename]
  refine result_bind fun frame => ?_
  rw [ref_name, slot_rename]
  cases frame.slot? var.name <;> rfl

theorem checkFresh_rename (frames : Frames) (var : VarRef) :
    (frames.rename names).checkFresh (names.ref var) = names.result id (frames.checkFresh var) := by
  rw [checkFresh, ref_frame, frame_rename]
  refine result_bind fun frame => ?_
  rw [ref_name, contains_rename]
  cases frame.contains var.name <;> rfl

theorem push_rename (frames : Frames) :
    (frames.rename names).push = names.result (·.rename names) frames.push := by
  obtain ⟨globals, locals, temporary⟩ := frames
  cases temporary <;> rfl

theorem pop_rename (frames : Frames) :
    (frames.rename names).pop = names.result (·.rename names) frames.pop := by
  obtain ⟨globals, ⟨items⟩, temporary⟩ := frames
  cases items <;> rfl

private theorem addVariable_rename (frames : Frames) (var : VarRef) :
    (frames.addVariable var).rename names = (frames.rename names).addVariable (names.ref var) :=
  modify_rename (declare_rename · var.name) frames var.frame

private theorem setSlot_rename (frames : Frames) (var : VarRef) (slot : Slot) :
    (frames.setSlot var slot).rename names = (frames.rename names).setSlot (names.ref var) slot :=
  modify_rename (assign_rename · var.name slot) frames var.frame

end Frames

/-! ## Effects -/

/-- The result of a check that may fail, or what was there before. -/
theorem getD_result (names : Renaming) (checked : Except Cause Frames) (frames : Frames) :
    (checked.toOption.getD frames).rename names =
      (names.result (·.rename names) checked).toOption.getD (frames.rename names) := by
  cases checked <;> rfl

/-- An effect changes a state with other names as it changes the state, once it is about the
other names itself. -/
theorem apply_rename (state : State) (effect : Effect) :
    (state.apply effect).rename names = (state.rename names).apply (effect.rename names) := by
  cases effect with
  | store var value => simp only [State.apply, State.rename, Effect.rename, Frames.setSlot_rename]
  | declare var => simp only [State.apply, State.rename, Effect.rename, Frames.addVariable_rename]
  | popTo var value => simp only [State.apply, State.rename, Effect.rename, Frames.setSlot_rename]
  | pushFrame =>
    simp only [State.apply, State.rename, Effect.rename, getD_result, Frames.push_rename]
  | popFrame =>
    simp only [State.apply, State.rename, Effect.rename, getD_result, Frames.pop_rename]
  | _ => rfl

end Framecode.Engine
