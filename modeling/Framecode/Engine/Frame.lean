import Framecode.Value

/-! Frames: variables by name. A variable is declared first, and has no value
until one is assigned. -/
namespace Framecode.Engine

/-- The content of a variable; none before the first assignment. -/
abbrev Slot := Option Value

/-- Variables in the order of their declaration. -/
structure Frame where
  slots : List (String × Slot) := []
  deriving DecidableEq, Repr

namespace Frame

/-- The slot of a variable, if the variable is declared. -/
def slot? (frame : Frame) (name : String) : Option Slot := frame.slots.lookup name

/-- Whether a variable is declared. -/
def contains (frame : Frame) (name : String) : Bool := (frame.slot? name).isSome

/-- The number of variables. -/
def size (frame : Frame) : Nat := frame.slots.length

/-- Whether no variable is declared. -/
def isEmpty (frame : Frame) : Bool := frame.slots.isEmpty

/-- Declare a variable. A variable that is declared already stays as it is. -/
def declare (frame : Frame) (name : String) : Frame :=
  if frame.contains name then frame else ⟨frame.slots ++ [(name, none)]⟩

/-- Change the slot of a variable. There is no change when it is not declared. -/
def assign (frame : Frame) (name : String) (slot : Slot) : Frame :=
  ⟨frame.slots.map fun entry => if entry.1 = name then (name, slot) else entry⟩

end Frame

end Framecode.Engine
