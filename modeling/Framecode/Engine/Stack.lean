/-! Stacks, held with their top first. -/
namespace Framecode.Engine

/-- A stack of items, the top one first. -/
structure Stack (α : Type) where
  items : List α := []
  deriving DecidableEq, Repr

namespace Stack

variable {α : Type}

/-- The number of items. -/
def size (stack : Stack α) : Nat := stack.items.length

/-- Whether there are no items. -/
def isEmpty (stack : Stack α) : Bool := stack.items.isEmpty

/-- Put an item on top. -/
def push (stack : Stack α) (item : α) : Stack α := ⟨item :: stack.items⟩

/-- The top item. -/
def top? (stack : Stack α) : Option α := stack.items.head?

/-- The stack without its top item. -/
def pop (stack : Stack α) : Stack α := ⟨stack.items.tail⟩

/-- Change the top item, if there is one. -/
def modifyTop (stack : Stack α) (change : α → α) : Stack α :=
  match stack.items with
  | [] => stack
  | item :: rest => ⟨change item :: rest⟩

end Stack

end Framecode.Engine
