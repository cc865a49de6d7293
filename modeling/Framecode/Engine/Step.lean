import Framecode.Engine.Code
import Framecode.Engine.Formula
import Framecode.Engine.Sink
import Framecode.Engine.State

/-! One step of a run. All checks of an instruction come before any change: they
end in an effect or in the cause of a fault. -/
namespace Framecode.Engine

/-- What a run goes by: the loaded program and the sink of its output. -/
structure Machine where
  code : Code
  sink : Sink

/-- The highest exit status that a program can ask for. -/
def maxExitStatus : Nat := 9

/-- The exit status that a value asks for. -/
def exitStatus : Value → Except Cause Nat
  | .int code =>
    if 0 ≤ code.toInt ∧ code.toInt.toNat ≤ maxExitStatus then .ok code.toInt.toNat
    else .error (.exitCodeOutOfRange code)
  | other => .error (.typeMismatch .int other.type)

/-- The variable that an argument names, which has to be declared. -/
def Frames.targetOf (frames : Frames) (arg : Argument) : Except Cause VarRef := do
  let var ← Frames.variableOf arg
  let _ ← frames.contents var
  return var

namespace Machine

/-- The position of a label. -/
def positionOf (machine : Machine) (label : String) : Except Cause Nat :=
  match machine.code.labels.position? label with
  | some position => .ok position
  | none => .error (.undefinedLabel label)

/-- The effect of an operation in a state, or the cause of its fault. -/
def plan (machine : Machine) (state : State) : Operation → Except Cause Effect
  | .store target formula => do
    let value ← formula.value state.frames
    let var ← state.frames.targetOf target
    return .store var value
  | .read target type => do
    let some readable := Readable.ofName? type.text | throw (.unsupportedReadType type.text)
    let var ← state.frames.targetOf target
    return .store var ((state.input.value? readable).getD .nil)
  | .define target => do
    let var ← Frames.variableOf target
    state.frames.checkFresh var
    return .declare var
  | .createFrame => return .createFrame
  | .pushFrame => do
    let _ ← state.frames.push
    return .pushFrame
  | .popFrame => do
    let _ ← state.frames.pop
    return .popFrame
  | .push source => do
    return .push (← state.frames.valueOf source)
  | .pop target => do
    let var ← state.frames.targetOf target
    let some value := state.data.top? | throw .dataStackEmpty
    return .popTo var value
  | .write source => do
    let text := (← state.frames.valueOf source).display
    match machine.sink.refusal state.written text with
    | some reason => throw (.output reason)
    | none => return .write text
  | .label => return .none
  | .jump label => do
    return .jump (← machine.positionOf label)
  | .branch onEqual label left right => do
    let target ← machine.positionOf label
    let left ← state.frames.valueOf left
    let right ← state.frames.valueOf right
    let equal ← equality left right
    return if equal == onEqual then .jump target else .none
  | .call label => do
    return .call (← machine.positionOf label)
  | .ret => do
    let some target := state.calls.top? | throw .returnWithoutCall
    return .ret target
  | .exit source => do
    return .stop (← exitStatus (← state.frames.valueOf source))
  | .dprint _ => return .none
  | .breakpoint => return .none

/-- The effect of an instruction in a state, or the cause of its fault. -/
def effect (machine : Machine) (state : State) (instr : Instruction) : Except Cause Effect :=
  match operation? instr with
  | some operation => machine.plan state operation
  | none => .error (.malformedInstruction instr.opcode)

end Machine

/-- Whether an instruction takes a line of input: a READ of a type that can be
read, whether or not it has a variable to store to. -/
def takesLine (instr : Instruction) : Bool :=
  match operation? instr with
  | some (.read _ type) => (Readable.ofName? type.text).isSome
  | _ => false

/-- The state once an instruction is fetched: the position is past it, and the
line that it takes is gone from the input. -/
def State.fetched (state : State) (instr : Instruction) : State :=
  { state with
    next := state.next + 1
    input := if takesLine instr then state.input.rest else state.input }

/-- How a run ends. -/
inductive Outcome where
  | completed
  | exited (status : Nat)
  | failed (fault : Fault)
  deriving DecidableEq, Repr

/-- What a step leads to: the run goes on in a state, or is over. -/
inductive Progress where
  | running (state : State)
  | finished (outcome : Outcome) (state : State)
  deriving DecidableEq, Repr

/-- One step. Without a next instruction the run is complete. An instruction with
a fault has no effect, and it is the last one. -/
def Machine.step (machine : Machine) (state : State) : Progress :=
  match machine.code.fetch? state.next with
  | none => .finished .completed state
  | some instr =>
    match machine.effect state instr with
    | .error cause => .finished (.failed ⟨instr.order, cause⟩) (state.fetched instr)
    | .ok (.stop status) => .finished (.exited status) (state.fetched instr)
    | .ok effect => .running ((state.fetched instr).apply effect)

end Framecode.Engine
