import Framecode.Proofs.Engine.Agreement
import Framecode.Proofs.Engine.Variables

/-! Causes of faults. A cause says something about the instruction that has it: which
argument is at fault, what that argument names and what the frames hold there. For a
well formed instruction every cause is right in this sense, and the causes that are
about badly built programs do not arise at all. -/
namespace Framecode.Engine

/-- A variable that is declared in a frame that exists, and has no value yet. -/
def Frames.Unassigned (frames : Frames) (var : VarRef) : Prop :=
  ∃ frame, frames.frame? var.frame = some frame ∧ frame.slot? var.name = some none

/-- The text of an argument does not spell what an argument of its kind has to. -/
def Malformed (arg : Argument) (error : DecodeError) : Prop :=
  (arg.kind = .var ∧ arg.varRef = .error error) ∨
    ∃ type, arg.kind = .literal type ∧ Argument.decode type arg.text = .error error

/-- The opcodes that go to a label. -/
def jumpOpcodes : List Opcode := [.call, .jump, .jumpIfEq, .jumpIfNeq]

/-- What a cause says about the instruction that has it, in the state before. Causes
that are about the values of operands say nothing here. -/
def Justified (machine : Machine) (state : State) (instr : Instruction) : Cause → Prop
  | .malformedArgument error => ∃ arg ∈ instr.args, Malformed arg error
  | .malformedInstruction _ | .invalidOrder | .duplicateLabel _ => False
  | .unsupportedReadType word => instr.opcode = .read ∧
      (∃ target, instr.args = [target, ⟨.typeName, word⟩]) ∧ Readable.ofName? word = none
  | .undefinedLabel label => instr.opcode ∈ jumpOpcodes ∧
      instr.args.head? = some ⟨.label, label⟩ ∧ machine.code.labels.position? label = none
  | .unassignedVariable text => ∃ arg ∈ instr.args, arg.kind = .var ∧ arg.text = text ∧
      ∃ var, arg.varRef = .ok var ∧ state.frames.Unassigned var
  | _ => True

/-- Whatever cause a check ends in, it is right about the instruction. -/
def Blames {α : Type} (machine : Machine) (state : State) (instr : Instruction)
    (checked : Except Cause α) : Prop :=
  ∀ cause, checked = .error cause → Justified machine state instr cause

section

variable {machine : Machine} {state : State} {instr : Instruction} {α β : Type}

private theorem blames_ok (found : α) : Blames machine state instr (.ok found) := by
  intro cause refused
  cases refused

private theorem blames_error {cause : Cause} (right : Justified machine state instr cause) :
    Blames machine state instr (.error cause : Except Cause α) := by
  intro other refused
  cases refused
  exact right

private theorem blames_bind {first : Except Cause α} {second : α → Except Cause β}
    (earlier : Blames machine state instr first)
    (later : ∀ found, Blames machine state instr (second found)) :
    Blames machine state instr (first >>= second) := by
  intro cause refused
  cases first with
  | error reason =>
    cases refused
    exact earlier _ rfl
  | ok found => exact later found cause refused

/-! ## Checks of values -/

private theorem blames_equality (left right : Value) :
    Blames machine state instr (equality left right) := by
  unfold equality
  split
  · exact blames_ok _
  · exact blames_error trivial

private theorem blames_inOrder (wanted : Ordering) (left right : Value) :
    Blames machine state instr (inOrder wanted left right) := by
  unfold inOrder
  split
  · exact blames_ok _
  · exact blames_error trivial

private theorem blames_holds (relation : Relation) (left right : Value) :
    Blames machine state instr (relation.holds left right) := by
  cases relation with
  | lt => exact blames_inOrder .lt left right
  | gt => exact blames_inOrder .gt left right
  | eq => exact blames_equality left right

private theorem blames_arithmetic (operator : Arithmetic) (left right : Int64) :
    Blames machine state instr (operator.apply left right) := by
  cases operator with
  | add | sub | mul => exact blames_ok _
  | idiv =>
    unfold Arithmetic.apply
    by_cases zero : right = 0
    · rw [if_pos zero]
      exact blames_error trivial
    · rw [if_neg zero]
      exact blames_ok _

private theorem blames_characterOf (code : Int64) :
    Blames machine state instr (characterOf code) := by
  unfold characterOf
  split
  · exact blames_ok _
  · exact blames_error trivial

private theorem blames_characterAt (text : String) (index : Int64) :
    Blames machine state instr (characterAt text index) := by
  unfold characterAt
  dsimp only
  split
  · split
    · exact blames_ok _
    · exact blames_error trivial
  · exact blames_error trivial

private theorem blames_replaceAt (text : String) (index : Int64) (replacement : String) :
    Blames machine state instr (replaceAt text index replacement) := by
  unfold replaceAt
  split
  · exact blames_error trivial
  · exact blames_bind (blames_characterAt text index) fun _ => blames_ok _

private theorem blames_exitStatus (value : Value) :
    Blames machine state instr (exitStatus value) := by
  unfold exitStatus
  split
  · split
    · exact blames_ok _
    · exact blames_error trivial
  · exact blames_error trivial

/-! ## Checks of arguments -/

private theorem blames_variableOf {arg : Argument} (member : arg ∈ instr.args)
    (kind : arg.kind = .var) :
    Blames machine state instr (Frames.variableOf arg) := by
  unfold Frames.variableOf
  cases named : arg.varRef with
  | ok var => exact blames_ok var
  | error error => exact blames_error ⟨arg, member, .inl ⟨kind, named⟩⟩

private theorem blames_frame (role : FrameRole) :
    Blames machine state instr (state.frames.frame role) := by
  unfold Frames.frame
  split
  · exact blames_error trivial
  · exact blames_ok _

private theorem blames_contents (var : VarRef) :
    Blames machine state instr (state.frames.contents var) := by
  apply blames_bind (blames_frame var.frame)
  intro frame
  split
  · exact blames_error trivial
  · exact blames_ok _

private theorem blames_targetOf {arg : Argument} (member : arg ∈ instr.args)
    (kind : arg.kind = .var) :
    Blames machine state instr (state.frames.targetOf arg) := by
  apply blames_bind (blames_variableOf member kind)
  intro var
  exact blames_bind (blames_contents var) fun _ => blames_ok var

private theorem blames_checkFresh (var : VarRef) :
    Blames machine state instr (state.frames.checkFresh var) := by
  apply blames_bind (blames_frame var.frame)
  intro frame
  split
  · exact blames_error trivial
  · exact blames_ok _

private theorem blames_slotOf {arg : Argument} (member : arg ∈ instr.args)
    (symbol : Shape.symb.accepts arg.kind = true) :
    Blames machine state instr (state.frames.slotOf arg) := by
  unfold Frames.slotOf
  by_cases kind : arg.kind = .var
  · rw [if_pos kind]
    exact blames_bind (blames_variableOf member kind) blames_contents
  · rw [if_neg kind]
    obtain ⟨type, literal⟩ : ∃ type, arg.kind = .literal type := by
      cases held : arg.kind with
      | literal type => exact ⟨type, rfl⟩
      | var => exact absurd held kind
      | label | typeName => rw [held] at symbol; cases symbol
    cases decoded : Argument.decode type arg.text with
    | ok value =>
      simp only [Argument.literal, literal, decoded, Except.map]
      exact blames_ok _
    | error error =>
      simp only [Argument.literal, literal, decoded, Except.map]
      exact blames_error ⟨arg, member, .inr ⟨type, literal, decoded⟩⟩

/-- A variable that an argument names has an empty slot only if it is declared in a
frame that exists, and was never assigned to. -/
theorem unassigned_of_contents {frames : Frames} {var : VarRef}
    (empty : frames.contents var = .ok none) : frames.Unassigned var :=
  Frames.contents_ok_iff.mp empty

private theorem blames_valueOf {arg : Argument} (member : arg ∈ instr.args)
    (symbol : Shape.symb.accepts arg.kind = true) :
    Blames machine state instr (state.frames.valueOf arg) := by
  intro cause refused
  unfold Frames.valueOf at refused
  cases slot : state.frames.slotOf arg with
  | error reason =>
    rw [slot] at refused
    cases refused
    exact blames_slotOf member symbol _ slot
  | ok content =>
    rw [slot] at refused
    cases content with
    | some value => cases refused
    | none =>
      cases refused
      -- Only a variable can be without a value: a literal that is read has one.
      unfold Frames.slotOf at slot
      by_cases kind : arg.kind = .var
      · rw [if_pos kind] at slot
        obtain ⟨var, named, empty⟩ := bind_ok_iff.mp slot
        exact ⟨arg, member, kind, rfl, var, Frames.variableOf_ok_iff.mp named,
          unassigned_of_contents empty⟩
      · rw [if_neg kind] at slot
        cases held : arg.kind with
        | var => exact absurd held kind
        | label | typeName => rw [held] at symbol; cases symbol
        | literal type =>
          simp only [Argument.literal, held] at slot
          cases decoded : Argument.decode type arg.text <;> rw [decoded] at slot <;> cases slot

private theorem blames_intOf {arg : Argument} (member : arg ∈ instr.args)
    (symbol : Shape.symb.accepts arg.kind = true) :
    Blames machine state instr (state.frames.intOf arg) := by
  apply blames_bind (blames_valueOf member symbol)
  intro value
  split
  · exact blames_ok _
  · exact blames_error trivial

private theorem blames_boolOf {arg : Argument} (member : arg ∈ instr.args)
    (symbol : Shape.symb.accepts arg.kind = true) :
    Blames machine state instr (state.frames.boolOf arg) := by
  apply blames_bind (blames_valueOf member symbol)
  intro value
  split
  · exact blames_ok _
  · exact blames_error trivial

private theorem blames_textOf {arg : Argument} (member : arg ∈ instr.args)
    (symbol : Shape.symb.accepts arg.kind = true) :
    Blames machine state instr (state.frames.textOf arg) := by
  apply blames_bind (blames_valueOf member symbol)
  intro value
  split
  · exact blames_ok _
  · exact blames_error trivial

end

/-! ## Checks of instructions -/

/-- The arguments whose values a formula is made of. -/
def Formula.symbols : Formula → List Argument
  | .copy source | .negation source | .typeName source => [source]
  | .character code => [code]
  | .length text => [text]
  | .arithmetic _ left right | .relation _ left right | .connective _ left right
  | .concat left right => [left, right]
  | .codepoint text index | .element text index => [text, index]
  | .replace text index replacement => [text, index, replacement]

namespace Operation

/-- The arguments whose values an operation looks at. -/
def symbols : Operation → List Argument
  | .store _ formula => formula.symbols
  | .push source | .write source | .exit source => [source]
  | .branch _ _ left right => [left, right]
  | _ => []

/-- The argument that names the variable an operation declares or stores to. -/
def target? : Operation → Option Argument
  | .store target _ | .read target _ | .define target | .pop target => some target
  | _ => none

/-- The label that an operation may go to. -/
def label? : Operation → Option String
  | .jump name | .branch _ name _ _ | .call name => some name
  | _ => none

end Operation

/-- An operation makes use of the arguments of a well formed instruction as their kinds
allow: values of symbols, targets that are variables, labels, and a type to read. -/
structure Fitting (instr : Instruction) (operation : Operation) : Prop where
  symbols : ∀ arg ∈ operation.symbols, arg ∈ instr.args ∧ Shape.symb.accepts arg.kind = true
  target : ∀ arg, operation.target? = some arg → arg ∈ instr.args ∧ arg.kind = .var
  label : ∀ label, operation.label? = some label →
    instr.opcode ∈ jumpOpcodes ∧ instr.args.head? = some ⟨.label, label⟩
  read : ∀ target type, operation = .read target type →
    instr.opcode = .read ∧ instr.args = [target, ⟨.typeName, type.text⟩]

theorem kind_of_var_accepts {kind : ArgKind} (accepted : Shape.var.accepts kind = true) :
    kind = .var := by
  cases kind <;> first | rfl | cases accepted

theorem kind_of_label_accepts {kind : ArgKind} (accepted : Shape.label.accepts kind = true) :
    kind = .label := by
  cases kind <;> first | rfl | cases accepted

private theorem kind_of_type_accepts {kind : ArgKind} (accepted : Shape.type.accepts kind = true) :
    kind = .typeName := by
  cases kind <;> first | rfl | cases accepted

theorem fitting_of_well_formed {instr : Instruction} {operation : Operation}
    (formed : instr.isWellFormed = true) (found : operation? instr = some operation) :
    Fitting instr operation := by
  have counted := counted_of_operation found
  obtain ⟨order, opcode, args⟩ := instr
  simp only [Instruction.isWellFormed, Bool.and_eq_true] at formed
  have accepted := formed.2
  cases opcode with
  | createFrame | pushFrame | popFrame | ret | breakpoint =>
    cases List.length_eq_zero_iff.mp counted
    cases found
    constructor <;> simp [Operation.symbols, Operation.target?, Operation.label?]
  | defVar | pops =>
    obtain ⟨target, rfl⟩ := List.length_eq_one_iff.mp counted
    cases found
    simp only [Opcode.operands, List.zip_cons_cons, List.all_cons, Bool.and_eq_true] at accepted
    have kind := kind_of_var_accepts accepted.1
    constructor <;> simp [Operation.symbols, Operation.target?, Operation.label?, kind]
  | pushs | write | exit | dprint =>
    obtain ⟨source, rfl⟩ := List.length_eq_one_iff.mp counted
    cases found
    simp only [Opcode.operands, List.zip_cons_cons, List.all_cons, Bool.and_eq_true] at accepted
    constructor <;> simp [Operation.symbols, Operation.target?, Operation.label?, accepted.1]
  | call | label | jump =>
    obtain ⟨⟨kind, text⟩, rfl⟩ := List.length_eq_one_iff.mp counted
    cases found
    simp only [Opcode.operands, List.zip_cons_cons, List.all_cons, Bool.and_eq_true] at accepted
    cases kind_of_label_accepts accepted.1
    constructor <;> simp [Operation.symbols, Operation.target?, Operation.label?, jumpOpcodes]
  | move | not | int2char | strlen | type =>
    obtain ⟨target, source, rfl⟩ := List.length_eq_two.mp counted
    cases found
    simp only [Opcode.operands, List.zip_cons_cons, List.all_cons, Bool.and_eq_true] at accepted
    have kind := kind_of_var_accepts accepted.1
    constructor <;>
      simp [Operation.symbols, Formula.symbols, Operation.target?, Operation.label?, kind,
        accepted.2.1]
  | read =>
    obtain ⟨target, ⟨typeKind, text⟩, rfl⟩ := List.length_eq_two.mp counted
    cases found
    simp only [Opcode.operands, List.zip_cons_cons, List.all_cons, Bool.and_eq_true] at accepted
    have kind := kind_of_var_accepts accepted.1
    cases kind_of_type_accepts accepted.2.1
    constructor <;> simp [Operation.symbols, Operation.target?, Operation.label?, kind]
  | jumpIfEq | jumpIfNeq =>
    obtain ⟨⟨kind, text⟩, left, right, rfl⟩ := List.length_eq_three.mp counted
    cases found
    simp only [Opcode.operands, List.zip_cons_cons, List.all_cons, Bool.and_eq_true] at accepted
    cases kind_of_label_accepts accepted.1
    constructor <;>
      simp [Operation.symbols, Operation.target?, Operation.label?, jumpOpcodes, accepted.2.1,
        accepted.2.2.1]
  | _ =>
    obtain ⟨target, left, right, rfl⟩ := List.length_eq_three.mp counted
    cases found
    simp only [Opcode.operands, List.zip_cons_cons, List.all_cons, Bool.and_eq_true] at accepted
    have kind := kind_of_var_accepts accepted.1
    -- SETCHAR looks at its target as well, which is a symbol like any variable.
    have symbol : Shape.symb.accepts .var = true := rfl
    constructor <;>
      simp [Operation.symbols, Formula.symbols, Operation.target?, Operation.label?, kind, symbol,
        accepted.2.1, accepted.2.2.1]

section

variable {machine : Machine} {state : State} {instr : Instruction}

/-- The causes that computing a formula ends in are right about its symbols. -/
theorem blames_formula {formula : Formula}
    (symbols : ∀ arg ∈ formula.symbols, arg ∈ instr.args ∧ Shape.symb.accepts arg.kind = true) :
    Blames machine state instr (formula.value state.frames) := by
  cases formula with
  | copy source =>
    obtain ⟨member, symbol⟩ := symbols source (by simp [Formula.symbols])
    exact blames_valueOf member symbol
  | arithmetic operator left right =>
    obtain ⟨leftMember, leftSymbol⟩ := symbols left (by simp [Formula.symbols])
    obtain ⟨rightMember, rightSymbol⟩ := symbols right (by simp [Formula.symbols])
    apply blames_bind (blames_intOf leftMember leftSymbol)
    intro leftNumber
    apply blames_bind (blames_intOf rightMember rightSymbol)
    intro rightNumber
    exact blames_bind (blames_arithmetic operator leftNumber rightNumber) fun _ => blames_ok _
  | relation wanted left right =>
    obtain ⟨leftMember, leftSymbol⟩ := symbols left (by simp [Formula.symbols])
    obtain ⟨rightMember, rightSymbol⟩ := symbols right (by simp [Formula.symbols])
    apply blames_bind (blames_valueOf leftMember leftSymbol)
    intro leftValue
    apply blames_bind (blames_valueOf rightMember rightSymbol)
    intro rightValue
    exact blames_bind (blames_holds wanted leftValue rightValue) fun _ => blames_ok _
  | connective operator left right =>
    obtain ⟨leftMember, leftSymbol⟩ := symbols left (by simp [Formula.symbols])
    obtain ⟨rightMember, rightSymbol⟩ := symbols right (by simp [Formula.symbols])
    apply blames_bind (blames_boolOf leftMember leftSymbol)
    intro leftTruth
    exact blames_bind (blames_boolOf rightMember rightSymbol) fun _ => blames_ok _
  | negation source =>
    obtain ⟨member, symbol⟩ := symbols source (by simp [Formula.symbols])
    exact blames_bind (blames_boolOf member symbol) fun _ => blames_ok _
  | character code =>
    obtain ⟨member, symbol⟩ := symbols code (by simp [Formula.symbols])
    apply blames_bind (blames_intOf member symbol)
    intro number
    exact blames_bind (blames_characterOf number) fun _ => blames_ok _
  | codepoint text index | element text index =>
    obtain ⟨textMember, textSymbol⟩ := symbols text (by simp [Formula.symbols])
    obtain ⟨indexMember, indexSymbol⟩ := symbols index (by simp [Formula.symbols])
    apply blames_bind (blames_textOf textMember textSymbol)
    intro held
    apply blames_bind (blames_intOf indexMember indexSymbol)
    intro number
    exact blames_bind (blames_characterAt held number) fun _ => blames_ok _
  | concat left right =>
    obtain ⟨leftMember, leftSymbol⟩ := symbols left (by simp [Formula.symbols])
    obtain ⟨rightMember, rightSymbol⟩ := symbols right (by simp [Formula.symbols])
    apply blames_bind (blames_textOf leftMember leftSymbol)
    intro leftText
    exact blames_bind (blames_textOf rightMember rightSymbol) fun _ => blames_ok _
  | length text =>
    obtain ⟨member, symbol⟩ := symbols text (by simp [Formula.symbols])
    exact blames_bind (blames_textOf member symbol) fun _ => blames_ok _
  | replace text index replacement =>
    obtain ⟨textMember, textSymbol⟩ := symbols text (by simp [Formula.symbols])
    obtain ⟨indexMember, indexSymbol⟩ := symbols index (by simp [Formula.symbols])
    obtain ⟨newMember, newSymbol⟩ := symbols replacement (by simp [Formula.symbols])
    apply blames_bind (blames_textOf textMember textSymbol)
    intro held
    apply blames_bind (blames_intOf indexMember indexSymbol)
    intro number
    apply blames_bind (blames_textOf newMember newSymbol)
    intro new
    exact blames_bind (blames_replaceAt held number new) fun _ => blames_ok _
  | typeName source =>
    obtain ⟨member, symbol⟩ := symbols source (by simp [Formula.symbols])
    exact blames_bind (blames_slotOf member symbol) fun _ => blames_ok _

private theorem blames_positionOf {label : String}
    (named : instr.opcode ∈ jumpOpcodes ∧ instr.args.head? = some ⟨.label, label⟩) :
    Blames machine state instr (machine.positionOf label) := by
  unfold Machine.positionOf
  cases found : machine.code.labels.position? label with
  | some position => exact blames_ok position
  | none => exact blames_error ⟨named.1, named.2, found⟩

/-- The causes that an operation ends in are right about an instruction that it fits. -/
theorem blames_plan {operation : Operation} (fitting : Fitting instr operation) :
    Blames machine state instr (machine.plan state operation) := by
  cases operation with
  | store target formula =>
    obtain ⟨member, kind⟩ := fitting.target target rfl
    apply blames_bind (blames_formula fitting.symbols)
    intro value
    exact blames_bind (blames_targetOf member kind) fun _ => blames_ok _
  | read target type =>
    obtain ⟨member, kind⟩ := fitting.target target rfl
    obtain ⟨opcode, args⟩ := fitting.read target type rfl
    simp only [Machine.plan]
    cases named : Readable.ofName? type.text with
    | none => exact blames_error ⟨opcode, ⟨target, args⟩, named⟩
    | some readable => exact blames_bind (blames_targetOf member kind) fun _ => blames_ok _
  | define target =>
    obtain ⟨member, kind⟩ := fitting.target target rfl
    apply blames_bind (blames_variableOf member kind)
    intro var
    exact blames_bind (blames_checkFresh var) fun _ => blames_ok _
  | pushFrame =>
    refine blames_bind ?_ fun _ => blames_ok _
    unfold Frames.push
    split
    · exact blames_error trivial
    · exact blames_ok _
  | popFrame =>
    refine blames_bind ?_ fun _ => blames_ok _
    unfold Frames.pop
    split
    · exact blames_error trivial
    · exact blames_ok _
  | push source =>
    obtain ⟨member, symbol⟩ := fitting.symbols source List.mem_cons_self
    exact blames_bind (blames_valueOf member symbol) fun _ => blames_ok _
  | pop target =>
    obtain ⟨member, kind⟩ := fitting.target target rfl
    apply blames_bind (blames_targetOf member kind)
    intro var
    split
    · exact blames_ok _
    · exact blames_error trivial
  | write source =>
    obtain ⟨member, symbol⟩ := fitting.symbols source List.mem_cons_self
    apply blames_bind (blames_valueOf member symbol)
    intro value
    dsimp only
    split
    · exact blames_error trivial
    · exact blames_ok _
  | jump label | call label =>
    exact blames_bind (blames_positionOf (fitting.label label rfl)) fun _ => blames_ok _
  | branch onEqual label left right =>
    obtain ⟨leftMember, leftSymbol⟩ := fitting.symbols left List.mem_cons_self
    obtain ⟨rightMember, rightSymbol⟩ := fitting.symbols right (by simp [Operation.symbols])
    apply blames_bind (blames_positionOf (fitting.label label rfl))
    intro target
    apply blames_bind (blames_valueOf leftMember leftSymbol)
    intro leftValue
    apply blames_bind (blames_valueOf rightMember rightSymbol)
    intro rightValue
    exact blames_bind (blames_equality leftValue rightValue) fun _ => blames_ok _
  | ret =>
    simp only [Machine.plan]
    split
    · exact blames_ok _
    · exact blames_error trivial
  | exit source =>
    obtain ⟨member, symbol⟩ := fitting.symbols source List.mem_cons_self
    apply blames_bind (blames_valueOf member symbol)
    intro value
    exact blames_bind (blames_exitStatus value) fun _ => blames_ok _
  | createFrame | label | dprint | breakpoint => exact blames_ok _

/-- Whatever fault a well formed instruction has, its cause is right. -/
theorem justified_of_effect {cause : Cause} (formed : instr.isWellFormed = true)
    (refused : machine.effect state instr = .error cause) :
    Justified machine state instr cause := by
  obtain ⟨operation, found⟩ := operation_of_well_formed formed
  simp only [Machine.effect, found] at refused
  exact blames_plan (fitting_of_well_formed formed found) cause refused

end

end Framecode.Engine
