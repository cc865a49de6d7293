import Framecode.Engine.Frames
import Framecode.Engine.Input

/-! The state of a running program, and the effects that change it. An effect is
what an instruction does once all its checks have passed, so applying one cannot
fail. -/
namespace Framecode.Engine

/-- The state of a running program. -/
structure State where
  frames : Frames := {}
  /-- The values on the data stack. -/
  data : Stack Value := {}
  /-- The positions that calls return to. -/
  calls : Stack Nat := {}
  /-- The position of the next instruction, counted from one. -/
  next : Nat := 1
  /-- The input that is not yet read. -/
  input : Input := {}
  /-- The texts written so far, the latest one first. -/
  written : List String := []
  deriving DecidableEq, Repr

namespace State

/-- The text written so far. -/
def output (state : State) : String := String.join state.written.reverse

end State

/-- What an instruction does to the state. -/
inductive Effect where
  | none
  | store (var : VarRef) (value : Value)
  | declare (var : VarRef)
  | createFrame
  | pushFrame
  | popFrame
  | push (value : Value)
  | popTo (var : VarRef) (value : Value)
  | write (text : String)
  | jump (target : Nat)
  | call (target : Nat)
  | ret (target : Nat)
  | stop (status : Nat)
  deriving DecidableEq, Repr

/-- Apply an effect. The position is already that of the instruction after the
one with the effect, so a call returns there. -/
def State.apply (state : State) : Effect → State
  | .none | .stop _ => state
  | .store var value => { state with frames := state.frames.setSlot var (some value) }
  | .declare var => { state with frames := state.frames.addVariable var }
  | .createFrame => { state with frames := state.frames.create }
  | .pushFrame => { state with frames := state.frames.push.toOption.getD state.frames }
  | .popFrame => { state with frames := state.frames.pop.toOption.getD state.frames }
  | .push value => { state with data := state.data.push value }
  | .popTo var value =>
    { state with data := state.data.pop, frames := state.frames.setSlot var (some value) }
  | .write text => { state with written := text :: state.written }
  | .jump target => { state with next := target }
  | .call target => { state with calls := state.calls.push state.next, next := target }
  | .ret target => { state with calls := state.calls.pop, next := target }

end Framecode.Engine
