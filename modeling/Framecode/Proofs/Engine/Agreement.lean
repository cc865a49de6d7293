import Framecode.Proofs.Engine.InPlace
import Framecode.Proofs.Engine.Loading
import Framecode.Proofs.Engine.Steps
import Mathlib.Data.List.Basic

/-! Execution in place agrees with planned steps. Handlers are rewritten as monadic
programs until all their checks stand before the one change they make; a handler that
changes something before its last check is run on the registers instead, where the
early change turns out to be none whenever that check fails. The line that READ takes
is the one exception, and a fetched state already accounts for it. -/
namespace Framecode.Engine

/-! ## Instructions with their operations -/

/-- An instruction has an operation exactly when its arguments are counted right. -/
theorem operation_some_iff {instr : Instruction} :
    (∃ operation, operation? instr = some operation) ↔ instr.args.length = instr.opcode.arity := by
  obtain ⟨order, opcode, args⟩ := instr
  -- No opcode takes four arguments, so five lengths decide every row of the table.
  rcases args with _ | ⟨first, _ | ⟨second, _ | ⟨third, _ | ⟨fourth, more⟩⟩⟩⟩ <;>
    cases opcode <;>
    first
      | exact iff_of_true ⟨_, rfl⟩ rfl
      | exact iff_of_false (fun ⟨_, found⟩ => by cases found) (fun counted => by cases counted)

theorem counted_of_operation {instr : Instruction} {operation : Operation}
    (found : operation? instr = some operation) : instr.args.length = instr.opcode.arity :=
  operation_some_iff.mp ⟨operation, found⟩

theorem counted_of_well_formed {instr : Instruction} (formed : instr.isWellFormed = true) :
    instr.args.length = instr.opcode.arity := by
  rw [Instruction.isWellFormed, Bool.and_eq_true, beq_iff_eq] at formed
  exact formed.1

theorem operation_of_well_formed {instr : Instruction} (formed : instr.isWellFormed = true) :
    ∃ operation, operation? instr = some operation :=
  operation_some_iff.mpr (counted_of_well_formed formed)

/-- The opcode and the arguments of an operation that has kept them as they were. -/
def Operation.origin? : Operation → Option (Opcode × List Argument)
  | .read target type => some (.read, [target, type])
  | .define target => some (.defVar, [target])
  | .pop target => some (.pops, [target])
  | .push source => some (.pushs, [source])
  | .write source => some (.write, [source])
  | .exit source => some (.exit, [source])
  | .dprint shown => some (.dprint, [shown])
  | _ => none

theorem origin_of_operation {instr : Instruction} {operation : Operation} {opcode : Opcode}
    {args : List Argument} (found : operation? instr = some operation)
    (origin : operation.origin? = some (opcode, args)) :
    instr.opcode = opcode ∧ instr.args = args := by
  obtain ⟨order, given, kept⟩ := instr
  rcases kept with _ | ⟨first, _ | ⟨second, _ | ⟨third, _ | ⟨fourth, more⟩⟩⟩⟩ <;>
    cases given <;> cases found <;> cases origin <;> exact ⟨rfl, rfl⟩

theorem read_of_operation {instr : Instruction} {target type : Argument}
    (found : operation? instr = some (.read target type)) :
    instr.opcode = .read ∧ instr.args = [target, type] :=
  origin_of_operation found rfl

namespace Handler

variable {α β : Type}

/-! ## Handlers on registers -/

@[simp] theorem bind_run (first : Handler α) (rest : α → Handler β) (registers : Registers) :
    (first >>= rest) registers = match first registers with
      | .ok found following => rest found following
      | .error trap last => .error trap last := by
  simp only [bind, EStateM.bind]
  cases first registers <;> rfl

@[simp] theorem fail_run (cause : Cause) (registers : Registers) :
    (fail cause : Handler α) registers = .error (.fault ⟨registers.current, cause⟩) registers := rfl

@[simp] theorem modify_run (change : Registers → Registers) (registers : Registers) :
    (modify change : Handler Unit) registers = .ok () (change registers) := rfl

/-- Looking changes nothing, whether it finds something or not. -/
@[simp] theorem look_run (view : State → Except Cause α) (registers : Registers) :
    look view registers = match view registers.toState with
      | .ok found => .ok found registers
      | .error cause => .error (.fault ⟨registers.current, cause⟩) registers := by
  unfold look
  rw [bind_run]
  show (match view registers.toState with
    | .ok found => pure found
    | .error cause => fail cause : Handler α) registers = _
  cases view registers.toState <;> rfl

/-! ## Looking is a program of its own -/

@[simp] theorem look_pure (found : α) : (look fun _ => pure found) = (pure found : Handler α) := rfl

@[simp] theorem look_ok (found : α) : (look fun _ => .ok found) = (pure found : Handler α) := rfl

/-- Two looks in a row are one look, as nothing happens in between. -/
@[simp] theorem look_bind (first : State → Except Cause α) (second : α → State → Except Cause β) :
    (look fun state => first state >>= fun found => second found state) =
      look first >>= fun found => look (second found) := by
  funext registers
  simp only [bind_run, look_run]
  cases first registers.toState <;> rfl

@[simp] theorem look_map (view : State → Except Cause α) (change : α → β) :
    (look fun state => change <$> view state) = change <$> look view := by
  simp only [map_eq_pure_bind, look_bind, look_pure]

@[simp] theorem look_inOrder (wanted : Ordering) (left right : Value) :
    (look fun _ => inOrder wanted left right) =
      (return (← orderOf left right) == wanted : Handler Bool) := by
  unfold inOrder orderOf
  cases left.order? right <;> rfl

@[simp] theorem argument_zero (order : UInt32) (opcode : Opcode) (first : Argument)
    (rest : List Argument) : argument ⟨order, opcode, first :: rest⟩ 0 = pure first := rfl

@[simp] theorem argument_succ (order : UInt32) (opcode : Opcode) (first : Argument)
    (rest : List Argument) (index : Nat) :
    argument ⟨order, opcode, first :: rest⟩ (index + 1) = argument ⟨order, opcode, rest⟩ index :=
  rfl

/-! ## Planned handlers -/

/-- Carry out an effect. -/
def carry : Effect → Handler Flow
  | .stop status => return .exit status
  | effect => do
    modify fun registers => { registers with toState := registers.apply effect }
    return .proceed

/-- Look for the effect to have, and then carry it out. -/
def planned (plan : State → Except Cause Effect) : Handler Flow := look plan >>= carry

private theorem planned_run (plan : State → Except Cause Effect) (registers : Registers) :
    planned plan registers = match plan registers.toState with
      | .ok effect => carry effect registers
      | .error cause => .error (.fault ⟨registers.current, cause⟩) registers := by
  rw [planned, bind_run, look_run]
  cases plan registers.toState <;> rfl

/-- Storing as planned is to look for the value first and to assign it then. -/
theorem planned_store (machine : Machine) (target : Argument) (formula : Formula) :
    (planned fun state => machine.plan state (.store target formula)) = do
      let value ← look fun state => formula.value state.frames
      assign target value
      return .proceed := by
  simp only [planned, Machine.plan, look_bind, look_pure, bind_assoc, pure_bind, assign]
  rfl

/-! ## Changes before the last check -/

private theorem assign_run (target : Argument) (value : Value) (registers : Registers) :
    assign target value registers = match registers.frames.targetOf target with
      | .ok var => .ok () { registers with frames := registers.frames.setSlot var (some value) }
      | .error cause => .error (.fault ⟨registers.current, cause⟩) registers := by
  rw [assign, bind_run, look_run]
  cases registers.frames.targetOf target <;> rfl

private theorem pop_of_empty {stack : Stack α} (empty : stack.top? = none) : stack.pop = stack := by
  obtain ⟨items⟩ := stack
  cases List.head?_eq_none_iff.mp empty
  rfl

/-- An empty data stack stays as it is when it is popped. -/
theorem popData_run (registers : Registers) : popData registers =
    match registers.data.top? with
    | some value => .ok value { registers with data := registers.data.pop }
    | none => .error (.fault ⟨registers.current, .dataStackEmpty⟩) registers := by
  show taken _ registers.data.top? { registers with data := registers.data.pop } = _
  cases held : registers.data.top? with
  | some value => rfl
  | none => rw [pop_of_empty held]; rfl

/-- An empty call stack stays as it is when it is popped. -/
theorem popCall_run (registers : Registers) : popCall registers =
    match registers.calls.top? with
    | some target => .ok target { registers with calls := registers.calls.pop }
    | none => .error (.fault ⟨registers.current, .returnWithoutCall⟩) registers := by
  show taken _ registers.calls.top? { registers with calls := registers.calls.pop } = _
  cases held : registers.calls.top? with
  | some target => rfl
  | none => rw [pop_of_empty held]; rfl

/-- A temporary frame that is not there is not lost. -/
theorem pushTemporary_run (registers : Registers) : pushTemporary registers =
    match registers.frames.push with
    | .ok frames => .ok () { registers with frames }
    | .error cause => .error (.fault ⟨registers.current, cause⟩) registers := by
  obtain ⟨⟨⟨globals, locals, temporary⟩, data, calls, next, input, written⟩, current⟩ := registers
  cases temporary <;> rfl

/-- A stack without frames is not popped, and the temporary frame stays. -/
theorem popLocal_run (registers : Registers) : popLocal registers =
    match registers.frames.pop with
    | .ok frames => .ok () { registers with frames }
    | .error cause => .error (.fault ⟨registers.current, cause⟩) registers := by
  obtain ⟨⟨⟨globals, ⟨locals⟩, temporary⟩, data, calls, next, input, written⟩, current⟩ := registers
  cases locals <;> rfl

/-- Declaring a variable again does not change its frame. -/
theorem addVariable_of_contains {frames : Frames} {var : VarRef} {frame : Frame}
    (framed : frames.frame var.frame = .ok frame) (declared : frame.contains var.name = true) :
    frames.addVariable var = frames := by
  obtain ⟨role, name⟩ := var
  obtain ⟨globals, ⟨locals⟩, temporary⟩ := frames
  cases role with
  | globalFrame =>
    cases framed
    simp_all [Frames.addVariable, Frames.modify, Frame.declare]
  | localFrame =>
    cases locals with
    | nil => cases framed
    | cons top rest =>
      cases framed
      simp_all [Frames.addVariable, Frames.modify, Stack.modifyTop, Frame.declare]
  | temporaryFrame =>
    cases temporary with
    | none => cases framed
    | some held =>
      cases framed
      simp_all [Frames.addVariable, Frames.modify, Frame.declare]

theorem declare_run (var : VarRef) (registers : Registers) : declare var registers =
    match registers.frames.checkFresh var with
    | .ok () => .ok () { registers with frames := registers.frames.addVariable var }
    | .error cause => .error (.fault ⟨registers.current, cause⟩) registers := by
  simp only [declare, bind_run, look_run, Frames.checkFresh]
  cases framed : registers.frames.frame var.frame with
  | error cause => rfl
  | ok frame =>
    simp only [modify_run]
    cases held : frame.contains var.name with
    | false => simp [held, bind, Except.bind, pure, Except.pure]; rfl
    | true =>
      simp [held, bind, Except.bind, throw, throwThe, MonadExceptOf.throw,
        addVariable_of_contains framed held]

private theorem readLine_run (type : Readable) (registers : Registers) : readLine type registers =
    .ok (registers.input.value? type) { registers with input := registers.input.rest } := rfl

private theorem writeText_run (machine : Machine) (text : String) (registers : Registers) :
    machine.writeText text registers = match machine.sink.refusal registers.written text with
      | some reason => .error (.fault ⟨registers.current, .output reason⟩) registers
      | none => .ok () { registers with written := text :: registers.written } := by
  rw [Machine.writeText, bind_run]
  show (match machine.sink.refusal registers.written text with
    | some reason => fail (.output reason)
    | none => modify fun registers => { registers with written := text :: registers.written } :
      Handler Unit) registers = _
  cases machine.sink.refusal registers.written text <;> rfl

/-! ## The families -/

section

variable {machine : Machine} {instr : Instruction} {operation : Operation}

private theorem arithmetic_planned (member : instr.opcode.family = .arithmetic)
    (found : operation? instr = some operation) :
    arithmetic instr = planned (machine.plan · operation) := by
  obtain ⟨order, opcode, args⟩ := instr
  have counted := counted_of_operation found
  cases opcode with
  | add | sub | mul =>
    obtain ⟨target, left, right, rfl⟩ := List.length_eq_three.mp counted
    cases found
    rw [planned_store]
    simp [Formula.value, arithmetic, intOf, Arithmetic.apply]
  | idiv =>
    obtain ⟨target, left, right, rfl⟩ := List.length_eq_three.mp counted
    cases found
    rw [planned_store]
    simp only [Formula.value, arithmetic, intOf, argument_zero, argument_succ, pure_bind, look_bind,
      bind_assoc]
    apply bind_congr
    intro dividend
    apply bind_congr
    intro divisor
    by_cases zero : divisor = 0
    · simp only [zero, Arithmetic.apply, ↓reduceIte]
      rfl
    · simp only [zero, Arithmetic.apply, ↓reduceIte]
      rfl
  | _ => cases member

private theorem relBoolConvert_planned (member : instr.opcode.family = .relBoolConvert)
    (found : operation? instr = some operation) :
    relBoolConvert instr = planned (machine.plan · operation) := by
  obtain ⟨order, opcode, args⟩ := instr
  have counted := counted_of_operation found
  cases opcode with
  | lt | gt | eq | and | or | stri2int =>
    obtain ⟨target, left, right, rfl⟩ := List.length_eq_three.mp counted
    cases found
    rw [planned_store]
    simp [Formula.value, relBoolConvert, intOf, boolOf, valueOf, textOf, Relation.holds,
      Connective.apply]
  | not | int2char =>
    obtain ⟨target, source, rfl⟩ := List.length_eq_two.mp counted
    cases found
    rw [planned_store]
    simp [Formula.value, relBoolConvert, intOf, boolOf]
  | _ => cases member

private theorem string_planned (member : instr.opcode.family = .string)
    (found : operation? instr = some operation) :
    string instr = planned (machine.plan · operation) := by
  obtain ⟨order, opcode, args⟩ := instr
  have counted := counted_of_operation found
  cases opcode with
  | concat | getChar | setChar =>
    obtain ⟨target, left, right, rfl⟩ := List.length_eq_three.mp counted
    cases found
    rw [planned_store]
    simp [Formula.value, string, intOf, textOf]
  | strlen | type =>
    obtain ⟨target, source, rfl⟩ := List.length_eq_two.mp counted
    cases found
    rw [planned_store]
    simp [Formula.value, string, textOf]
  | _ => cases member

private theorem debug_planned (member : instr.opcode.family = .debug)
    (found : operation? instr = some operation) :
    debug instr = planned (machine.plan · operation) := by
  obtain ⟨order, opcode, args⟩ := instr
  have counted := counted_of_operation found
  cases opcode with
  | dprint =>
    obtain ⟨shown, rfl⟩ := List.length_eq_one_iff.mp counted
    cases found
    rfl
  | breakpoint =>
    cases List.length_eq_zero_iff.mp counted
    cases found
    rfl
  | _ => cases member

private theorem controlFlow_planned (member : instr.opcode.family = .controlFlow)
    (found : operation? instr = some operation) :
    machine.controlFlow instr = planned (machine.plan · operation) := by
  obtain ⟨order, opcode, args⟩ := instr
  have counted := counted_of_operation found
  cases opcode with
  | label =>
    obtain ⟨label, rfl⟩ := List.length_eq_one_iff.mp counted
    cases found
    rfl
  | jump | exit =>
    obtain ⟨arg, rfl⟩ := List.length_eq_one_iff.mp counted
    cases found
    simp only [planned, Machine.plan, Machine.controlFlow, argument_zero, pure_bind, valueOf,
      look_bind, look_pure, bind_assoc]
    rfl
  | jumpIfEq | jumpIfNeq =>
    obtain ⟨label, left, right, rfl⟩ := List.length_eq_three.mp counted
    cases found
    simp only [planned, Machine.plan, Machine.controlFlow, argument_zero, argument_succ, pure_bind,
      valueOf, look_bind, look_pure, bind_assoc]
    apply bind_congr
    intro target
    apply bind_congr
    intro leftValue
    apply bind_congr
    intro rightValue
    apply bind_congr
    intro equal
    cases equal <;> rfl
  | _ => cases member

private theorem dataStack_planned (member : instr.opcode.family = .dataStack)
    (found : operation? instr = some operation) :
    dataStack instr = planned (machine.plan · operation) := by
  obtain ⟨order, opcode, args⟩ := instr
  have counted := counted_of_operation found
  cases opcode with
  | pushs =>
    obtain ⟨source, rfl⟩ := List.length_eq_one_iff.mp counted
    cases found
    simp only [planned, Machine.plan, dataStack, argument_zero, pure_bind, valueOf, look_bind,
      look_pure, bind_assoc]
    rfl
  | pops =>
    obtain ⟨target, rfl⟩ := List.length_eq_one_iff.mp counted
    cases found
    funext registers
    -- The first look at the target decides the second one, which sees the same frames.
    simp only [dataStack, planned_run, Machine.plan, argument_zero, pure_bind, bind_run, look_run]
    cases targeted : registers.frames.targetOf target with
    | error cause => rfl
    | ok var =>
      simp only [popData_run]
      cases registers.data.top? with
      | none => rfl
      | some value =>
        simp only [assign_run, targeted]
        rfl
  | _ => cases member

private theorem memoryAndFrames_planned (member : instr.opcode.family = .memoryAndFrames)
    (found : operation? instr = some operation) :
    machine.memoryAndFrames instr = planned (machine.plan · operation) := by
  obtain ⟨order, opcode, args⟩ := instr
  have counted := counted_of_operation found
  cases opcode with
  | move =>
    obtain ⟨target, source, rfl⟩ := List.length_eq_two.mp counted
    cases found
    rw [planned_store]
    rfl
  | createFrame =>
    cases List.length_eq_zero_iff.mp counted
    cases found
    rfl
  | pushFrame =>
    cases List.length_eq_zero_iff.mp counted
    cases found
    funext registers
    simp only [Machine.memoryAndFrames, planned_run, Machine.plan, bind_run, pushTemporary_run]
    cases pushed : registers.frames.push with
    | error cause => rfl
    | ok frames => simp [carry, State.apply, pushed, Except.toOption]
  | popFrame =>
    cases List.length_eq_zero_iff.mp counted
    cases found
    funext registers
    simp only [Machine.memoryAndFrames, planned_run, Machine.plan, bind_run, popLocal_run]
    cases popped : registers.frames.pop with
    | error cause => rfl
    | ok frames => simp [carry, State.apply, popped, Except.toOption]
  | defVar =>
    obtain ⟨target, rfl⟩ := List.length_eq_one_iff.mp counted
    cases found
    funext registers
    simp only [Machine.memoryAndFrames, planned_run, Machine.plan, argument_zero, pure_bind,
      bind_run, look_run]
    cases Frames.variableOf target with
    | error cause => rfl
    | ok var =>
      simp only [declare_run]
      cases fresh : registers.frames.checkFresh var with
      | error cause => simp [bind, Except.bind, fresh]
      | ok _ => simp [bind, Except.bind, fresh]; rfl
  | call =>
    obtain ⟨label, rfl⟩ := List.length_eq_one_iff.mp counted
    cases found
    simp only [planned, Machine.plan, Machine.memoryAndFrames, argument_zero, pure_bind, look_bind,
      look_pure, bind_assoc]
    rfl
  | ret =>
    cases List.length_eq_zero_iff.mp counted
    cases found
    funext registers
    simp only [Machine.memoryAndFrames, planned_run, Machine.plan, bind_run, popCall_run]
    cases registers.calls.top? <;> rfl
  | _ => cases member

private theorem write_planned {order : UInt32} {args : List Argument}
    (found : operation? ⟨order, .write, args⟩ = some operation) :
    machine.inputOutput ⟨order, .write, args⟩ = planned (machine.plan · operation) := by
  obtain ⟨source, rfl⟩ := List.length_eq_one_iff.mp (counted_of_operation found)
  cases found
  funext registers
  simp only [Machine.inputOutput, planned_run, Machine.plan, argument_zero, pure_bind, valueOf,
    bind_run, look_run]
  cases registers.frames.valueOf source with
  | error cause => rfl
  | ok value =>
    simp only [writeText_run, bind, Except.bind]
    cases machine.sink.refusal registers.written value.display <;> rfl

/-- Every handler but that of READ looks first and acts then. -/
theorem handle_planned (found : operation? instr = some operation) (unread : instr.opcode ≠ .read) :
    machine.handle instr = planned (machine.plan · operation) := by
  unfold Machine.handle
  cases member : instr.opcode.family with
  | arithmetic => exact arithmetic_planned member found
  | relBoolConvert => exact relBoolConvert_planned member found
  | controlFlow => exact controlFlow_planned member found
  | memoryAndFrames => exact memoryAndFrames_planned member found
  | dataStack => exact dataStack_planned member found
  | string => exact string_planned member found
  | debug => exact debug_planned member found
  | inputOutput =>
    obtain ⟨order, opcode, args⟩ := instr
    cases opcode with
    | read => exact absurd rfl unread
    | write => exact write_planned found
    | _ => cases member

end

/-- READ takes its line before it looks at its target, and the line stays taken. -/
theorem read_run (machine : Machine) (order : UInt32) (target type : Argument)
    (registers : Registers) :
    machine.handle ⟨order, .read, [target, type]⟩ registers =
      match Readable.ofName? type.text with
      | none => .error (.fault ⟨registers.current, .unsupportedReadType type.text⟩) registers
      | some readable =>
        match registers.frames.targetOf target with
        | .error cause => .error (.fault ⟨registers.current, cause⟩)
            { registers with input := registers.input.rest }
        | .ok var => .ok .proceed { registers with
            input := registers.input.rest
            frames := registers.frames.setSlot var
              (some ((registers.input.value? readable).getD .nil)) } := by
  simp only [Machine.handle, Opcode.family, Machine.inputOutput, argument_zero, argument_succ,
    pure_bind]
  cases Readable.ofName? type.text with
  | none => rfl
  | some readable =>
    simp only [bind_run, readLine_run, assign_run]
    cases registers.frames.targetOf target <;> rfl

end Handler

/-! ## Steps and runs -/

/-- What a step comes to in place, at the instruction of a given order. A step that
fetches an instruction is never the completion of the run. -/
def Progress.inPlace (order : UInt32) : Progress → EStateM.Result Trap Registers Flow
  | .running state | .finished .completed state => .ok .proceed ⟨state, order⟩
  | .finished (.exited status) state => .ok (.exit status) ⟨state, order⟩
  | .finished (.failed fault) state => .error (.fault fault) ⟨state, order⟩

/-- What an instruction plans does not hang on the position it stands at. -/
theorem plan_next (machine : Machine) (state : State) (position : Nat) (operation : Operation) :
    machine.plan { state with next := position } operation = machine.plan state operation := by
  cases operation <;> rfl

/-- An instruction other than READ leaves the input alone. -/
theorem fetched_of_unread {state : State} {instr : Instruction} (unread : instr.opcode ≠ .read) :
    state.fetched instr = { state with next := state.next + 1 } := by
  have untaken : takesLine instr = false := by
    unfold takesLine
    split
    · rename_i target type found
      exact absurd (read_of_operation found).1 unread
    · rfl
  simp [State.fetched, untaken]

/-- An instruction with its arguments counted right does in place what its step does. -/
theorem handle_eq_step {machine : Machine} {registers : Registers} {instr : Instruction}
    (fetched : machine.code.fetch? registers.next = some instr)
    (counted : instr.args.length = instr.opcode.arity) :
    machine.handle instr (registers.fetched instr) =
      (machine.step registers.toState).inPlace instr.order := by
  obtain ⟨operation, found⟩ := operation_some_iff.mpr counted
  simp only [Machine.step, fetched, Machine.effect, found]
  by_cases unread : instr.opcode ≠ .read
  · rw [Handler.handle_planned found unread, Handler.planned_run, fetched_of_unread unread]
    show (match machine.plan { registers.toState with next := registers.next + 1 } operation with
      | .ok effect => _ | .error cause => _) = _
    rw [plan_next]
    cases machine.plan registers.toState operation with
    | error cause => rfl
    | ok effect => cases effect <;> rfl
  · obtain ⟨order, opcode, args⟩ := instr
    cases not_not.mp unread
    obtain ⟨target, type, rfl⟩ := List.length_eq_two.mp counted
    cases found
    rw [Handler.read_run]
    cases named : Readable.ofName? type.text with
    | none =>
      simp only [Machine.plan, State.fetched, takesLine, operation?, named]
      rfl
    | some readable =>
      simp only [Machine.plan, State.fetched, takesLine, operation?, named, Registers.fetched, bind,
        Except.bind]
      cases registers.frames.targetOf target <;> rfl

theorem fetch_member {code : Code} {position : Nat} {instr : Instruction}
    (fetched : code.fetch? position = some instr) : instr ∈ code.instructions :=
  List.mem_of_getElem? (fetch_some_iff.mp fetched).2

/-- The end of a run as execution in place reports it. -/
def Outcome.inPlace : Outcome → Except Trap Termination
  | .completed => .ok .completed
  | .exited status => .ok (.exited status)
  | .failed fault => .error (.fault fault)

/-- Executed in place, a program whose instructions have their arguments counted right
ends as its run does, and in the same state. -/
theorem execute_eq_run {machine : Machine}
    (counted : ∀ instr ∈ machine.code.instructions, instr.args.length = instr.opcode.arity)
    (fuel : Nat) (registers : Registers) :
    (machine.execute fuel registers).1 =
        (machine.run fuel registers.toState).outcome.map Outcome.inPlace ∧
      (machine.execute fuel registers).2.toState = (machine.run fuel registers.toState).state := by
  induction fuel generalizing registers with
  | zero => exact ⟨rfl, rfl⟩
  | succ fuel ih =>
    rw [Machine.execute, Machine.run, Machine.runWatched]
    cases fetched : machine.code.fetch? registers.next with
    | none => simp [Machine.step, fetched, Outcome.inPlace]
    | some instr =>
      simp only [handle_eq_step fetched (counted instr (fetch_member fetched))]
      cases ran : machine.step registers.toState with
      | running next => exact ih ⟨next, instr.order⟩
      | finished outcome last =>
        cases outcome with
        | completed =>
          rw [(step_completed_iff.mp ran).1] at fetched
          cases fetched
        | exited status => exact ⟨rfl, rfl⟩
        | failed fault => exact ⟨rfl, rfl⟩

end Framecode.Engine
