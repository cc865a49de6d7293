import Framecode.Proofs.Engine.Causes
import Framecode.Proofs.Engine.Renaming
import Mathlib.Data.List.Forall2

/-! Programs in another spelling. The labels and the variables of one have other names in the
other, and a literal may be another text of the same value. An instruction then does the same
thing with arguments that mean the same: a variable has what it has under its other name, a
literal has its value, and a fault differs only in the names that it reports. -/
namespace Framecode

open Engine (Renaming)

/-- An argument under other names. A literal may stay as it is, and one that has a value may be
spelled in any other way of its type that has the same value. The name of a type stays. -/
inductive Argument.Respelled (names : Renaming) : Argument → Argument → Prop where
  | label (name : String) : Respelled names ⟨.label, name⟩ ⟨.label, names.label name⟩
  | var (text : String) : Respelled names ⟨.var, text⟩ ⟨.var, names.spelling text⟩
  | literal {type : ValueType} {text other : String} {value : Value}
      (decoded : Argument.decode type text = .ok value)
      (same : Argument.decode type other = .ok value) :
      Respelled names ⟨.literal type, text⟩ ⟨.literal type, other⟩
  | kept (type : ValueType) (text : String) :
      Respelled names ⟨.literal type, text⟩ ⟨.literal type, text⟩
  | typeName (word : String) : Respelled names ⟨.typeName, word⟩ ⟨.typeName, word⟩

/-- An instruction whose arguments are spelled in another way. -/
structure Instruction.Respelled (names : Renaming) (instr again : Instruction) : Prop where
  order : again.order = instr.order
  opcode : again.opcode = instr.opcode
  args : List.Forall₂ (Argument.Respelled names) instr.args again.args

/-- A program whose instructions are spelled in another way, each at its place. -/
def Program.Respelled (names : Renaming) (program again : Program) : Prop :=
  List.Forall₂ (Instruction.Respelled names) program.instructions again.instructions

namespace Engine

/-- An argument that a value is asked of, spelled in another way. -/
def SymbolRespelled (names : Renaming) (arg again : Argument) : Prop :=
  Shape.symb.accepts arg.kind = true ∧ arg.Respelled names again

/-- An argument that names a variable to declare or to store to, spelled in another way. -/
def TargetRespelled (names : Renaming) (arg again : Argument) : Prop :=
  arg.kind = .var ∧ arg.Respelled names again

/-- A formula whose symbols are spelled in another way. -/
inductive Formula.Respelled (names : Renaming) : Formula → Formula → Prop where
  | copy {source source' : Argument} (symbol : SymbolRespelled names source source') :
      Respelled names (.copy source) (.copy source')
  | arithmetic {left left' right right' : Argument} (operator : Arithmetic)
      (first : SymbolRespelled names left left') (second : SymbolRespelled names right right') :
      Respelled names (.arithmetic operator left right) (.arithmetic operator left' right')
  | relation {left left' right right' : Argument} (wanted : Relation)
      (first : SymbolRespelled names left left') (second : SymbolRespelled names right right') :
      Respelled names (.relation wanted left right) (.relation wanted left' right')
  | connective {left left' right right' : Argument} (operator : Connective)
      (first : SymbolRespelled names left left') (second : SymbolRespelled names right right') :
      Respelled names (.connective operator left right) (.connective operator left' right')
  | negation {source source' : Argument} (symbol : SymbolRespelled names source source') :
      Respelled names (.negation source) (.negation source')
  | character {code code' : Argument} (symbol : SymbolRespelled names code code') :
      Respelled names (.character code) (.character code')
  | codepoint {text text' index index' : Argument} (first : SymbolRespelled names text text')
      (second : SymbolRespelled names index index') :
      Respelled names (.codepoint text index) (.codepoint text' index')
  | concat {left left' right right' : Argument} (first : SymbolRespelled names left left')
      (second : SymbolRespelled names right right') :
      Respelled names (.concat left right) (.concat left' right')
  | length {text text' : Argument} (symbol : SymbolRespelled names text text') :
      Respelled names (.length text) (.length text')
  | element {text text' index index' : Argument} (first : SymbolRespelled names text text')
      (second : SymbolRespelled names index index') :
      Respelled names (.element text index) (.element text' index')
  | replace {text text' index index' new new' : Argument} (first : SymbolRespelled names text text')
      (second : SymbolRespelled names index index') (third : SymbolRespelled names new new') :
      Respelled names (.replace text index new) (.replace text' index' new')
  | typeName {source source' : Argument} (symbol : SymbolRespelled names source source') :
      Respelled names (.typeName source) (.typeName source')

/-- An operation whose arguments are spelled in another way, each as far as the operation makes
use of it. -/
inductive Operation.Respelled (names : Renaming) : Operation → Operation → Prop where
  | store {target target' : Argument} {formula formula' : Formula}
      (stored : TargetRespelled names target target')
      (computed : formula.Respelled names formula') :
      Respelled names (.store target formula) (.store target' formula')
  | read {target target' : Argument} (type : Argument)
      (stored : TargetRespelled names target target') :
      Respelled names (.read target type) (.read target' type)
  | define {target target' : Argument} (declared : TargetRespelled names target target') :
      Respelled names (.define target) (.define target')
  | createFrame : Respelled names .createFrame .createFrame
  | pushFrame : Respelled names .pushFrame .pushFrame
  | popFrame : Respelled names .popFrame .popFrame
  | push {source source' : Argument} (symbol : SymbolRespelled names source source') :
      Respelled names (.push source) (.push source')
  | pop {target target' : Argument} (stored : TargetRespelled names target target') :
      Respelled names (.pop target) (.pop target')
  | write {source source' : Argument} (symbol : SymbolRespelled names source source') :
      Respelled names (.write source) (.write source')
  | label : Respelled names .label .label
  | jump (name : String) : Respelled names (.jump name) (.jump (names.label name))
  | branch {left left' right right' : Argument} (onEqual : Bool) (name : String)
      (first : SymbolRespelled names left left') (second : SymbolRespelled names right right') :
      Respelled names (.branch onEqual name left right)
        (.branch onEqual (names.label name) left' right')
  | call (name : String) : Respelled names (.call name) (.call (names.label name))
  | ret : Respelled names .ret .ret
  | exit {source source' : Argument} (symbol : SymbolRespelled names source source') :
      Respelled names (.exit source) (.exit source')
  | dprint (shown shown' : Argument) : Respelled names (.dprint shown) (.dprint shown')
  | breakpoint : Respelled names .breakpoint .breakpoint

variable {names : Renaming}

/-! ## Instructions and their operations -/

private theorem TargetRespelled.intro {arg again : Argument}
    (kind : Shape.var.accepts arg.kind = true)
    (respelled : arg.Respelled names again) : TargetRespelled names arg again :=
  ⟨kind_of_var_accepts kind, respelled⟩

private theorem TargetRespelled.symbol {arg again : Argument}
    (target : TargetRespelled names arg again) :
    SymbolRespelled names arg again := by
  refine ⟨?_, target.2⟩
  rw [target.1]
  rfl

private theorem kind_respelled {arg again : Argument} (respelled : arg.Respelled names again) :
    again.kind = arg.kind := by
  cases respelled <;> rfl

private theorem accepts_respelled {args args' : List Argument}
    (related : List.Forall₂ (Argument.Respelled names) args args') (shapes : List Shape) :
    (shapes.zip args').all (fun pair => pair.1.accepts pair.2.kind) =
      (shapes.zip args).all fun pair => pair.1.accepts pair.2.kind := by
  induction related generalizing shapes with
  | nil => rfl
  | cons first rest ih =>
    cases shapes with
    | nil => rfl
    | cons shape shapes => simp only [List.zip_cons_cons, List.all_cons, kind_respelled first, ih]

/-- The kinds of arguments stay, so an instruction is as well formed as it was. -/
theorem isWellFormed_respelled {instr again : Instruction}
    (respelled : instr.Respelled names again) : again.isWellFormed = instr.isWellFormed := by
  simp only [Instruction.isWellFormed, respelled.opcode, respelled.args.length_eq,
    accepts_respelled respelled.args]

theorem label_respelled {arg again : Argument} (kind : Shape.label.accepts arg.kind = true)
    (respelled : arg.Respelled names again) : again.text = names.label arg.text := by
  cases respelled with
  | label name => rfl
  | _ => cases kind

private theorem type_respelled {arg again : Argument} (kind : Shape.type.accepts arg.kind = true)
    (respelled : arg.Respelled names again) : again = arg := by
  cases respelled with
  | typeName word => rfl
  | _ => cases kind

/-- Arguments that are spelled in another way, each of a kind that its position takes. -/
inductive OperandsRespelled (names : Renaming) :
    List Shape → List Argument → List Argument → Prop where
  | nil : OperandsRespelled names [] [] []
  | cons {shape : Shape} {shapes : List Shape} {arg arg' : Argument} {args args' : List Argument}
      (accepted : shape.accepts arg.kind = true) (first : arg.Respelled names arg')
      (rest : OperandsRespelled names shapes args args') :
      OperandsRespelled names (shape :: shapes) (arg :: args) (arg' :: args')

private theorem operands_respelled {args args' : List Argument}
    (related : List.Forall₂ (Argument.Respelled names) args args') {shapes : List Shape}
    (counted : args.length = shapes.length)
    (accepted : (shapes.zip args).all (fun pair => pair.1.accepts pair.2.kind) = true) :
    OperandsRespelled names shapes args args' := by
  induction related generalizing shapes with
  | nil =>
    cases List.length_eq_zero_iff.mp counted.symm
    exact .nil
  | cons first rest ih =>
    cases shapes with
    | nil => cases counted
    | cons shape shapes =>
      simp only [List.zip_cons_cons, List.all_cons, Bool.and_eq_true] at accepted
      exact .cons accepted.1 first (ih (Nat.succ.inj counted) accepted.2)

/-- A well formed instruction has an operation in either spelling, and these differ in the
spelling only. -/
theorem operation_respelled {instr again : Instruction} (formed : instr.isWellFormed = true)
    (respelled : instr.Respelled names again) :
    ∃ operation operation', operation? instr = some operation ∧
      operation? again = some operation' ∧ operation.Respelled names operation' := by
  obtain ⟨_, _, args⟩ := instr
  obtain ⟨order, opcode, args'⟩ := again
  obtain ⟨rfl, rfl, related⟩ := respelled
  rw [Instruction.isWellFormed, Bool.and_eq_true, beq_iff_eq] at formed
  have operands := operands_respelled related formed.1 formed.2
  cases opcode with
  | createFrame | pushFrame | popFrame | ret | breakpoint =>
    obtain ⟨⟩ := operands
    exact ⟨_, _, rfl, rfl, by constructor⟩
  | dprint =>
    obtain _ | ⟨_, first, ⟨⟩⟩ := operands
    exact ⟨_, _, rfl, rfl, .dprint _ _⟩
  | label =>
    obtain _ | ⟨_, first, ⟨⟩⟩ := operands
    exact ⟨_, _, rfl, rfl, .label⟩
  | defVar | pops =>
    obtain _ | ⟨kind, first, ⟨⟩⟩ := operands
    have target := TargetRespelled.intro kind first
    exact ⟨_, _, rfl, rfl, by constructor; exact target⟩
  | pushs | write | exit =>
    obtain _ | ⟨symbol, first, ⟨⟩⟩ := operands
    exact ⟨_, _, rfl, rfl, by constructor; exact ⟨symbol, first⟩⟩
  | call | jump =>
    obtain _ | ⟨kind, first, ⟨⟩⟩ := operands
    refine ⟨_, _, rfl, rfl, ?_⟩
    rw [label_respelled kind first]
    constructor
  | move | not | int2char | strlen | type =>
    obtain _ | ⟨kind, first, _ | ⟨symbol, second, ⟨⟩⟩⟩ := operands
    exact ⟨_, _, rfl, rfl, .store (.intro kind first) (by constructor; exact ⟨symbol, second⟩)⟩
  | read =>
    obtain _ | ⟨kind, first, _ | ⟨typed, second, ⟨⟩⟩⟩ := operands
    cases type_respelled typed second
    exact ⟨_, _, rfl, rfl, .read _ (.intro kind first)⟩
  | jumpIfEq | jumpIfNeq =>
    obtain _ | ⟨kind, first, _ | ⟨left, second, _ | ⟨right, third, ⟨⟩⟩⟩⟩ := operands
    refine ⟨_, _, rfl, rfl, ?_⟩
    rw [label_respelled kind first]
    exact .branch _ _ ⟨left, second⟩ ⟨right, third⟩
  | setChar =>
    obtain _ | ⟨kind, first, _ | ⟨index, second, _ | ⟨text, third, ⟨⟩⟩⟩⟩ := operands
    -- SETCHAR looks at its target as well, which is a symbol like any variable.
    have target := TargetRespelled.intro kind first
    exact ⟨_, _, rfl, rfl, .store target (.replace target.symbol ⟨index, second⟩ ⟨text, third⟩)⟩
  | _ =>
    obtain _ | ⟨kind, first, _ | ⟨left, second, _ | ⟨right, third, ⟨⟩⟩⟩⟩ := operands
    exact ⟨_, _, rfl, rfl, .store (.intro kind first) (by
      constructor
      · exact ⟨left, second⟩
      · exact ⟨right, third⟩)⟩

/-! ## Arguments and formulas -/

variable {frames : Frames} {arg again : Argument}

theorem variableOf_respelled (respelled : TargetRespelled names arg again) :
    Frames.variableOf again = names.result names.ref (Frames.variableOf arg) := by
  obtain ⟨kind, spelled⟩ := respelled
  cases spelled with
  | var text =>
    simp only [Frames.variableOf, Argument.varRef, parse_spelling]
    cases VarRef.parse text <;> rfl
  | _ => cases kind

theorem targetOf_respelled (respelled : TargetRespelled names arg again) :
    (frames.rename names).targetOf again = names.result names.ref (frames.targetOf arg) := by
  rw [Frames.targetOf, variableOf_respelled respelled]
  refine result_bind fun var => ?_
  rw [Frames.contents_rename]
  exact result_bind fun _ => rfl

/-- A literal that is spelled in another way has the same value, or no value as before. -/
theorem slotOf_respelled (respelled : SymbolRespelled names arg again) :
    (frames.rename names).slotOf again = names.result id (frames.slotOf arg) := by
  obtain ⟨kind, spelled⟩ := respelled
  cases spelled with
  | var text =>
    have named : Frames.variableOf ⟨.var, names.spelling text⟩ = _ :=
      variableOf_respelled ⟨rfl, .var text⟩
    simp only [Frames.slotOf, if_pos, named]
    exact result_bind fun var => Frames.contents_rename frames var
  | @literal type text other value decoded same =>
    simp only [Frames.slotOf, Argument.literal, decoded, same, Except.map, reduceCtorEq, if_false]
    rfl
  | kept type text =>
    simp only [Frames.slotOf, Argument.literal, reduceCtorEq, if_false]
    cases Argument.decode type text <;> rfl
  | label | typeName => cases kind

/-- Only a variable can be without a value, and then it is reported under its other name. -/
theorem valueOf_respelled (respelled : SymbolRespelled names arg again) :
    (frames.rename names).valueOf again = names.result id (frames.valueOf arg) := by
  rw [Frames.valueOf, slotOf_respelled respelled]
  obtain ⟨kind, spelled⟩ := respelled
  cases spelled with
  | var text => exact result_bind fun slot => by cases slot <;> rfl
  | literal decoded same =>
    simp only [Frames.valueOf, Frames.slotOf, Argument.literal, decoded, Except.map, reduceCtorEq,
      if_false]
    rfl
  | kept type text =>
    simp only [Frames.valueOf, Frames.slotOf, Argument.literal, reduceCtorEq, if_false]
    cases Argument.decode type text <;> rfl
  | label | typeName => cases kind

private theorem intOf_respelled (respelled : SymbolRespelled names arg again) :
    (frames.rename names).intOf again = names.result id (frames.intOf arg) := by
  rw [Frames.intOf, valueOf_respelled respelled]
  exact result_bind fun value => by cases value <;> rfl

private theorem boolOf_respelled (respelled : SymbolRespelled names arg again) :
    (frames.rename names).boolOf again = names.result id (frames.boolOf arg) := by
  rw [Frames.boolOf, valueOf_respelled respelled]
  exact result_bind fun value => by cases value <;> rfl

private theorem textOf_respelled (respelled : SymbolRespelled names arg again) :
    (frames.rename names).textOf again = names.result id (frames.textOf arg) := by
  rw [Frames.textOf, valueOf_respelled respelled]
  exact result_bind fun value => by cases value <;> rfl

/-! The faults of operators are about values, and name nothing. -/

theorem bind_nameless {α β γ : Type} {first : Except Cause α} {second : α → Except Cause β}
    {again : α → Except Cause γ} {change : β → γ} (nameless : names.result id first = first)
    (later : ∀ found, again found = names.result change (second found)) :
    (first >>= again) = names.result change (first >>= second) := by
  cases first with
  | error cause =>
    have same : cause.rename names = cause := Except.error.inj nameless
    exact congrArg Except.error same.symm
  | ok found => exact later found

private theorem result_arithmetic (operator : Arithmetic) (left right : Int64) :
    names.result id (operator.apply left right) = operator.apply left right := by
  cases operator with
  | add | sub | mul => rfl
  | idiv => unfold Arithmetic.apply; dsimp only; split <;> rfl

theorem result_equality (left right : Value) :
    names.result id (equality left right) = equality left right := by
  unfold equality
  split <;> rfl

private theorem result_inOrder (wanted : Ordering) (left right : Value) :
    names.result id (inOrder wanted left right) = inOrder wanted left right := by
  unfold inOrder
  split <;> rfl

private theorem result_holds (relation : Relation) (left right : Value) :
    names.result id (relation.holds left right) = relation.holds left right := by
  cases relation with
  | lt => exact result_inOrder .lt left right
  | gt => exact result_inOrder .gt left right
  | eq => exact result_equality left right

private theorem result_characterOf (code : Int64) :
    names.result id (characterOf code) = characterOf code := by
  unfold characterOf
  split <;> rfl

private theorem result_characterAt (text : String) (index : Int64) :
    names.result id (characterAt text index) = characterAt text index := by
  unfold characterAt
  dsimp only
  split
  · split <;> rfl
  · rfl

private theorem result_replaceAt (text : String) (index : Int64) (replacement : String) :
    names.result id (replaceAt text index replacement) = replaceAt text index replacement := by
  unfold replaceAt
  split
  · rfl
  · exact (bind_nameless (result_characterAt text index) fun _ => rfl).symm

theorem result_exitStatus (value : Value) :
    names.result id (exitStatus value) = exitStatus value := by
  unfold exitStatus
  split
  · split <;> rfl
  · rfl

/-- A formula has the same value in another spelling, or fails with the same cause. -/
theorem value_respelled {formula formula' : Formula}
    (respelled : formula.Respelled names formula') :
    formula'.value (frames.rename names) = names.result id (formula.value frames) := by
  cases respelled with
  | copy symbol => exact valueOf_respelled symbol
  | arithmetic operator first second =>
    rw [Formula.value, intOf_respelled first]
    refine result_bind fun left => ?_
    rw [intOf_respelled second]
    refine result_bind fun right => ?_
    exact bind_nameless (result_arithmetic operator left right) fun _ => rfl
  | relation wanted first second =>
    rw [Formula.value, valueOf_respelled first]
    refine result_bind fun left => ?_
    rw [valueOf_respelled second]
    refine result_bind fun right => ?_
    exact bind_nameless (result_holds wanted left right) fun _ => rfl
  | connective operator first second =>
    rw [Formula.value, boolOf_respelled first]
    refine result_bind fun left => ?_
    rw [boolOf_respelled second]
    exact result_bind fun _ => rfl
  | negation symbol =>
    rw [Formula.value, boolOf_respelled symbol]
    exact result_bind fun _ => rfl
  | character symbol =>
    rw [Formula.value, intOf_respelled symbol]
    refine result_bind fun code => ?_
    exact bind_nameless (result_characterOf code) fun _ => rfl
  | codepoint first second | element first second =>
    rw [Formula.value, textOf_respelled first]
    refine result_bind fun text => ?_
    rw [intOf_respelled second]
    refine result_bind fun index => ?_
    exact bind_nameless (result_characterAt text index) fun _ => rfl
  | concat first second =>
    rw [Formula.value, textOf_respelled first]
    refine result_bind fun left => ?_
    rw [textOf_respelled second]
    exact result_bind fun _ => rfl
  | length symbol =>
    rw [Formula.value, textOf_respelled symbol]
    exact result_bind fun _ => rfl
  | replace first second third =>
    rw [Formula.value, textOf_respelled first]
    refine result_bind fun text => ?_
    rw [intOf_respelled second]
    refine result_bind fun index => ?_
    rw [textOf_respelled third]
    refine result_bind fun new => ?_
    exact bind_nameless (result_replaceAt text index new) fun _ => rfl
  | typeName symbol =>
    rw [Formula.value, slotOf_respelled symbol]
    exact result_bind fun _ => rfl

end Engine

end Framecode
