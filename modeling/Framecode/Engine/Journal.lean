import Framecode.Engine.Run

/-! Journals of runs: how many instructions were executed, which ones came first,
and the events that were logged. -/
namespace Framecode.Engine

/-- What BREAK logs: the next position and the sizes of the parts of the state. -/
structure Snapshot where
  next : Nat
  globals : Nat
  depth : Nat
  temporary : Bool
  data : Nat
  calls : Nat
  deriving DecidableEq, Repr

/-- The sizes of the parts of a state, whose instruction has been fetched. -/
def State.snapshot (state : State) : Snapshot where
  next := state.next
  globals := state.frames.globals.size
  depth := state.frames.depth
  temporary := state.frames.temporary.isSome
  data := state.data.size
  calls := state.calls.size

/-- What is logged. -/
inductive Event where
  | loaded (instructions labels : Nat)
  | dprint (order : UInt32) (shown : Argument)
  | breakpoint (order : UInt32) (snapshot : Snapshot)
  | finished (status : Nat)
  | failed (fault : Fault)
  deriving DecidableEq, Repr

/-- What an instruction logs. DPRINT shows its argument as it is spelled. -/
def eventOf? (state : State) (instr : Instruction) : Option Event :=
  match operation? instr with
  | some (.dprint shown) => some (.dprint instr.order shown)
  | some .breakpoint => some (.breakpoint instr.order (state.fetched instr).snapshot)
  | _ => none

/-- The event that loading a program logs. -/
def Code.event (code : Code) : Event := .loaded code.size code.labels.size

/-- The event that the end of a run logs. -/
def Outcome.event : Outcome → Event
  | .failed fault => .failed fault
  | .completed => .finished 0
  | .exited status => .finished status

/-- A journal. The trace holds the first instructions and the events are all
those logged, both with the latest one first. -/
structure Journal where
  steps : Nat := 0
  trace : List Instruction := []
  events : List Event := []
  deriving DecidableEq, Repr

namespace Journal

/-- Note an instruction, which is traced if it is among the first `limit` ones. -/
def note (limit : Nat) (journal : Journal) (state : State) (instr : Instruction) : Journal where
  steps := journal.steps + 1
  trace := if journal.steps < limit then instr :: journal.trace else journal.trace
  events := (eventOf? state instr).toList ++ journal.events

end Journal

/-- Run a program from the start and keep a journal. -/
def Machine.runJournaled (machine : Machine) (limit fuel : Nat) (input : Input) : Ended Journal :=
  let start : Journal := { events := [machine.code.event] }
  let ended := machine.runWatched (Journal.note limit) fuel (.initial input) start
  let closing := (ended.outcome.map Outcome.event).toList
  { ended with seen := { ended.seen with events := closing ++ ended.seen.events } }

end Framecode.Engine
