import Framecode.Engine.Fault
import Framecode.Engine.Frame
import Framecode.Engine.Stack

/-! The frames of a running program: the global one, which always exists, a stack
of frames whose top is the local one, and perhaps a temporary one. -/
namespace Framecode.Engine

/-- The frames of a running program. -/
structure Frames where
  globals : Frame := {}
  locals : Stack Frame := {}
  temporary : Option Frame := none
  deriving DecidableEq, Repr

namespace Frames

/-- The number of frames on the stack. -/
def depth (frames : Frames) : Nat := frames.locals.size

/-- The frame that a role names, if it exists. -/
def frame? (frames : Frames) : FrameRole → Option Frame
  | .globalFrame => some frames.globals
  | .localFrame => frames.locals.top?
  | .temporaryFrame => frames.temporary

/-- Change the frame that a role names, if it exists. -/
def modify (frames : Frames) (role : FrameRole) (change : Frame → Frame) : Frames :=
  match role with
  | .globalFrame => { frames with globals := change frames.globals }
  | .localFrame => { frames with locals := frames.locals.modifyTop change }
  | .temporaryFrame => { frames with temporary := frames.temporary.map change }

/-- Start an empty temporary frame. An old one is lost. -/
def create (frames : Frames) : Frames := { frames with temporary := some {} }

/-- Put the temporary frame on the stack; it is then no longer temporary. -/
def push (frames : Frames) : Except Cause Frames :=
  match frames.temporary with
  | none => .error (.missingFrame .temporaryFrame)
  | some frame => .ok { frames with locals := frames.locals.push frame, temporary := none }

/-- Make the local frame the temporary one. An old temporary frame is lost. -/
def pop (frames : Frames) : Except Cause Frames :=
  match frames.locals.top? with
  | none => .error (.missingFrame .localFrame)
  | some frame => .ok { frames with locals := frames.locals.pop, temporary := some frame }

/-- The frame that a role names, or the fault that there is none. -/
def frame (frames : Frames) (role : FrameRole) : Except Cause Frame :=
  match frames.frame? role with
  | none => .error (.missingFrame role)
  | some frame => .ok frame

/-- The slot of a variable. -/
def contents (frames : Frames) (var : VarRef) : Except Cause Slot := do
  let frame ← frames.frame var.frame
  match frame.slot? var.name with
  | none => throw (.undefinedVariable var)
  | some slot => return slot

/-- Check that a variable can be declared. -/
def checkFresh (frames : Frames) (var : VarRef) : Except Cause Unit := do
  let frame ← frames.frame var.frame
  if frame.contains var.name then throw (.redeclaration var)

/-- Declare a variable that can be declared. -/
def addVariable (frames : Frames) (var : VarRef) : Frames :=
  frames.modify var.frame (·.declare var.name)

/-- Set the slot of a declared variable. -/
def setSlot (frames : Frames) (var : VarRef) (slot : Slot) : Frames :=
  frames.modify var.frame (·.assign var.name slot)

/-- Declare a variable. -/
def declare (frames : Frames) (var : VarRef) : Except Cause Frames := do
  frames.checkFresh var
  return frames.addVariable var

/-- Assign to a variable, or make it unassigned again. -/
def assign (frames : Frames) (var : VarRef) (slot : Slot) : Except Cause Frames := do
  let _ ← frames.contents var
  return frames.setSlot var slot

end Frames

end Framecode.Engine
