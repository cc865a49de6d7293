import Framecode.Engine.Run

/-! Execution in place, as a machine does it that has one state and changes it as it
goes. The family of an instruction handles it: the handler takes the arguments one by
one, looks things up, and may pop, take or store before its last check. Whatever has
been changed by then stays changed when the handler stops with a trap.

Nothing here plans ahead. That such a machine does what planned steps do, and leaves
nothing half done, is proved in the modules after this one. -/
namespace Framecode.Engine

/-- The registers of a machine: the state of the run, and the order of the instruction
that is being executed. -/
structure Registers extends State where
  current : UInt32 := 0
  deriving DecidableEq, Repr

/-- Why a handler stops: a fault of the program, or an opcode that is not of its
family. -/
inductive Trap where
  | fault (fault : Fault)
  | unhandled (order : UInt32) (opcode : Opcode)
  deriving DecidableEq, Repr

/-- What comes after an instruction. -/
inductive Flow where
  | proceed
  | exit (status : Nat)
  deriving DecidableEq, Repr

/-- A computation on the registers. When it traps, the registers are left as they are
at that moment. -/
abbrev Handler (α : Type) := EStateM Trap Registers α

namespace Handler

/-- Stop with a fault at the current instruction. -/
def fail {α : Type} (cause : Cause) : Handler α := do
  throw (.fault ⟨(← get).current, cause⟩)

/-- Stop because the opcode is not of the family of the handler. -/
def unhandled {α : Type} (instr : Instruction) : Handler α := do
  throw (.unhandled (← get).current instr.opcode)

/-- Check something in the state, without a change. -/
def look {α : Type} (view : State → Except Cause α) : Handler α := do
  match view (← get).toState with
  | .ok found => return found
  | .error cause => fail cause

/-- The argument at an index, counted from zero. -/
def argument (instr : Instruction) (index : Nat) : Handler Argument :=
  match instr.args[index]? with
  | some arg => return arg
  | none => fail (.malformedInstruction instr.opcode)

/-- The value of an argument. -/
def valueOf (arg : Argument) : Handler Value := look (·.frames.valueOf arg)

/-- The value of an argument that has to be an integer. -/
def intOf (arg : Argument) : Handler Int64 := look (·.frames.intOf arg)

/-- The value of an argument that has to be a truth value. -/
def boolOf (arg : Argument) : Handler Bool := look (·.frames.boolOf arg)

/-- The value of an argument that has to be a text. -/
def textOf (arg : Argument) : Handler String := look (·.frames.textOf arg)

/-- Find the variable of an argument, and store a value there. -/
def assign (target : Argument) (value : Value) : Handler Unit := do
  let var ← look (·.frames.targetOf target)
  modify fun registers => { registers with frames := registers.frames.setSlot var (some value) }

/-- What was taken from somewhere, unless there was nothing to take. -/
def taken {α : Type} (missing : Cause) : Option α → Handler α
  | some item => return item
  | none => fail missing

/-- Pop the data stack. -/
def popData : Handler Value := do
  let top := (← get).data.top?
  modify fun registers => { registers with data := registers.data.pop }
  taken .dataStackEmpty top

/-- Pop the call stack. -/
def popCall : Handler Nat := do
  let top := (← get).calls.top?
  modify fun registers => { registers with calls := registers.calls.pop }
  taken .returnWithoutCall top

/-- Take the temporary frame, and put it on the stack. -/
def pushTemporary : Handler Unit := do
  let temporary := (← get).frames.temporary
  modify fun registers => { registers with frames := { registers.frames with temporary := none } }
  let frame ← taken (.missingFrame .temporaryFrame) temporary
  modify fun registers => { registers with
    frames := { registers.frames with locals := registers.frames.locals.push frame } }

/-- Pop a frame from the stack, and make it the temporary one. -/
def popLocal : Handler Unit := do
  let top := (← get).frames.locals.top?
  modify fun registers => { registers with
    frames := { registers.frames with locals := registers.frames.locals.pop } }
  let frame ← taken (.missingFrame .localFrame) top
  modify fun registers => { registers with
    frames := { registers.frames with temporary := some frame } }

/-- Declare a variable in its frame, where it has to be new. -/
def declare (var : VarRef) : Handler Unit := do
  let frame ← look (·.frames.frame var.frame)
  modify fun registers => { registers with frames := registers.frames.addVariable var }
  if frame.contains var.name then fail (.redeclaration var)

/-- Take a line of the input, and read a value of some type from it. -/
def readLine (type : Readable) : Handler (Option Value) := do
  let value := (← get).input.value? type
  modify fun registers => { registers with input := registers.input.rest }
  return value

/-- ADD, SUB, MUL, IDIV. -/
def arithmetic (instr : Instruction) : Handler Flow := do
  let target ← argument instr 0
  let left ← intOf (← argument instr 1)
  let right ← intOf (← argument instr 2)
  let result ← match instr.opcode with
    | .add => pure (left + right)
    | .sub => pure (left - right)
    | .mul => pure (left * right)
    | .idiv => if right = 0 then fail .divisionByZero else pure (left / right)
    | _ => unhandled instr
  assign target (.int result)
  return .proceed

/-- The order of two values. -/
def orderOf (left right : Value) : Handler Ordering :=
  match left.order? right with
  | some order => return order
  | none => fail (incomparable left right)

/-- LT, GT, EQ, AND, OR, NOT, INT2CHAR, STRI2INT. -/
def relBoolConvert (instr : Instruction) : Handler Flow := do
  let target ← argument instr 0
  let result ← match instr.opcode with
    | .lt | .gt => do
      let left ← valueOf (← argument instr 1)
      let right ← valueOf (← argument instr 2)
      let order ← orderOf left right
      pure (Value.bool (order == if instr.opcode = .lt then .lt else .gt))
    | .eq => do
      let left ← valueOf (← argument instr 1)
      let right ← valueOf (← argument instr 2)
      pure (Value.bool (← look fun _ => equality left right))
    | .and => do
      let left ← boolOf (← argument instr 1)
      let right ← boolOf (← argument instr 2)
      pure (Value.bool (left && right))
    | .or => do
      let left ← boolOf (← argument instr 1)
      let right ← boolOf (← argument instr 2)
      pure (Value.bool (left || right))
    | .not => do
      pure (Value.bool !(← boolOf (← argument instr 1)))
    | .int2char => do
      let code ← intOf (← argument instr 1)
      pure (Value.string (String.singleton (← look fun _ => characterOf code)))
    | .stri2int => do
      let text ← textOf (← argument instr 1)
      let index ← intOf (← argument instr 2)
      pure (Value.int (Int64.ofNat (← look fun _ => characterAt text index).toNat))
    | _ => unhandled instr
  assign target result
  return .proceed

/-- CONCAT, STRLEN, GETCHAR, SETCHAR, TYPE. -/
def string (instr : Instruction) : Handler Flow := do
  let target ← argument instr 0
  let result ← match instr.opcode with
    | .concat => do
      let left ← textOf (← argument instr 1)
      let right ← textOf (← argument instr 2)
      pure (Value.string (left ++ right))
    | .strlen => do
      pure (Value.int (lengthOf (← textOf (← argument instr 1))))
    | .getChar => do
      let text ← textOf (← argument instr 1)
      let index ← intOf (← argument instr 2)
      pure (Value.string (String.singleton (← look fun _ => characterAt text index)))
    | .setChar => do
      let text ← textOf (← argument instr 0)
      let index ← intOf (← argument instr 1)
      let replacement ← textOf (← argument instr 2)
      pure (Value.string (← look fun _ => replaceAt text index replacement))
    | .type => do
      let source ← argument instr 1
      pure (Value.string (typeNameOf (← look (·.frames.slotOf source))))
    | _ => unhandled instr
  assign target result
  return .proceed

/-- PUSHS, POPS. -/
def dataStack (instr : Instruction) : Handler Flow := do
  match instr.opcode with
  | .pushs => do
    let value ← valueOf (← argument instr 0)
    modify fun registers => { registers with data := registers.data.push value }
  | .pops => do
    let target ← argument instr 0
    -- The target is looked up once before the stack is touched, and again to store.
    let _ ← look (·.frames.targetOf target)
    assign target (← popData)
  | _ => unhandled instr
  return .proceed

/-- DPRINT, BREAK. -/
def debug (instr : Instruction) : Handler Flow := do
  match instr.opcode with
  | .dprint => do
    let _ ← argument instr 0
  | .breakpoint => pure ()
  | _ => unhandled instr
  return .proceed

end Handler

namespace Machine

open Handler

/-- LABEL, JUMP, JUMPIFEQ, JUMPIFNEQ, EXIT. -/
def controlFlow (machine : Machine) (instr : Instruction) : Handler Flow := do
  match instr.opcode with
  | .label => return .proceed
  | .jump => do
    let label ← argument instr 0
    let target ← look fun _ => machine.positionOf label.text
    modify fun registers => { registers with next := target }
    return .proceed
  | .jumpIfEq | .jumpIfNeq => do
    let label ← argument instr 0
    let target ← look fun _ => machine.positionOf label.text
    let left ← valueOf (← argument instr 1)
    let right ← valueOf (← argument instr 2)
    let equal ← look fun _ => equality left right
    if equal == (instr.opcode == .jumpIfEq) then
      modify fun registers => { registers with next := target }
    return .proceed
  | .exit => do
    let value ← valueOf (← argument instr 0)
    return .exit (← look fun _ => exitStatus value)
  | _ => unhandled instr

/-- MOVE, CREATEFRAME, PUSHFRAME, POPFRAME, DEFVAR, CALL, RETURN. -/
def memoryAndFrames (machine : Machine) (instr : Instruction) : Handler Flow := do
  match instr.opcode with
  | .move => do
    let value ← valueOf (← argument instr 1)
    assign (← argument instr 0) value
  | .createFrame => modify fun registers => { registers with frames := registers.frames.create }
  | .pushFrame => pushTemporary
  | .popFrame => popLocal
  | .defVar => do
    let target ← argument instr 0
    declare (← look fun _ => Frames.variableOf target)
  | .call => do
    let label ← argument instr 0
    let target ← look fun _ => machine.positionOf label.text
    modify fun registers => { registers with calls := registers.calls.push registers.next }
    modify fun registers => { registers with next := target }
  | .ret => do
    let target ← popCall
    modify fun registers => { registers with next := target }
  | _ => unhandled instr
  return .proceed

/-- Hand a text to the sink. -/
def writeText (machine : Machine) (text : String) : Handler Unit := do
  match machine.sink.refusal (← get).written text with
  | some reason => fail (.output reason)
  | none => modify fun registers => { registers with written := text :: registers.written }

/-- READ, WRITE. -/
def inputOutput (machine : Machine) (instr : Instruction) : Handler Flow := do
  match instr.opcode with
  | .read => do
    let target ← argument instr 0
    let type ← argument instr 1
    match Readable.ofName? type.text with
    | none => fail (.unsupportedReadType type.text)
    | some readable =>
      -- The line is gone before the target is looked up.
      let value ← readLine readable
      assign target (value.getD .nil)
  | .write => do
    let value ← valueOf (← argument instr 0)
    machine.writeText value.display
  | _ => unhandled instr
  return .proceed

/-- Handle an instruction by the handler of its family. -/
def handle (machine : Machine) (instr : Instruction) : Handler Flow :=
  match instr.opcode.family with
  | .arithmetic => arithmetic instr
  | .relBoolConvert => relBoolConvert instr
  | .controlFlow => machine.controlFlow instr
  | .memoryAndFrames => machine.memoryAndFrames instr
  | .dataStack => dataStack instr
  | .string => string instr
  | .inputOutput => machine.inputOutput instr
  | .debug => debug instr

end Machine

/-- The registers once an instruction is fetched: its order is the current one, and the
next position is the one behind it. -/
def Registers.fetched (registers : Registers) (instr : Instruction) : Registers :=
  { registers with current := instr.order, next := registers.next + 1 }

/-- The end of an execution that did not trap. -/
inductive Termination where
  | completed
  | exited (status : Nat)
  deriving DecidableEq, Repr

/-- Execute a program in place. Without an ending the fuel was used up. -/
def Machine.execute (machine : Machine) :
    Nat → Registers → Option (Except Trap Termination) × Registers
  | 0, registers => (none, registers)
  | fuel + 1, registers =>
    match machine.code.fetch? registers.next with
    | none => (some (.ok .completed), registers)
    | some instr =>
      match machine.handle instr (registers.fetched instr) with
      | .ok .proceed following => machine.execute fuel following
      | .ok (.exit status) last => (some (.ok (.exited status)), last)
      | .error trap last => (some (.error trap), last)

end Framecode.Engine
