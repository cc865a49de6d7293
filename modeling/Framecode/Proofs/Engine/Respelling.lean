import Framecode.Proofs.Engine.Positions
import Framecode.Proofs.Engine.Runs
import Framecode.Proofs.Engine.Spelling
import Mathlib.Logic.Equiv.Basic

/-! Runs of programs in another spelling. Loading, every step and every run commute with a
change of spelling, since names are only compared with each other and a literal is never
looked at except for its value. -/
namespace Framecode.Engine

variable {names : Renaming}

/-! ## Steps -/

/-- Loaded programs of which one is spelled as the other in another way. -/
structure Code.Respelled (names : Renaming) (code again : Code) : Prop where
  instructions : List.Forall₂ (Instruction.Respelled names) code.instructions again.instructions
  labels : again.labels = code.labels.rename names
  formed : ∀ instr ∈ code.instructions, instr.isWellFormed = true

section

variable {code code' : Code}

private theorem positionOf_respelled (spelled : code.Respelled names code') (sink : Sink)
    (label : String) :
    Machine.positionOf ⟨code', sink⟩ (names.label label) =
      names.result id (Machine.positionOf ⟨code, sink⟩ label) := by
  unfold Machine.positionOf
  rw [spelled.labels, position_rename]
  cases code.labels.position? label <;> rfl

/-- An operation in another spelling has the effect about the other names, or fails with the
cause about them. -/
theorem plan_respelled {operation operation' : Operation} (spelled : code.Respelled names code')
    (respelled : operation.Respelled names operation') (sink : Sink) (state : State) :
    Machine.plan ⟨code', sink⟩ (state.rename names) operation' =
      names.result (·.rename names) (Machine.plan ⟨code, sink⟩ state operation) := by
  cases respelled with
  | store stored computed =>
    have valued := @value_respelled names state.frames _ _ computed
    have targeted := @targetOf_respelled names state.frames _ _ stored
    simp only [Machine.plan, State.rename, valued]
    refine result_bind fun value => ?_
    rw [targeted]
    exact result_bind fun _ => rfl
  | read type stored =>
    have targeted := @targetOf_respelled names state.frames _ _ stored
    simp only [Machine.plan, State.rename, targeted]
    cases Readable.ofName? type.text with
    | none => rfl
    | some readable => exact result_bind fun _ => rfl
  | define declared =>
    simp only [Machine.plan, State.rename, variableOf_respelled declared]
    refine result_bind fun var => ?_
    rw [Frames.checkFresh_rename]
    exact result_bind fun _ => rfl
  | createFrame | label | dprint | breakpoint => rfl
  | pushFrame =>
    simp only [Machine.plan, State.rename, Frames.push_rename]
    exact result_bind fun _ => rfl
  | popFrame =>
    simp only [Machine.plan, State.rename, Frames.pop_rename]
    exact result_bind fun _ => rfl
  | push symbol =>
    have valued := @valueOf_respelled names state.frames _ _ symbol
    simp only [Machine.plan, State.rename, valued]
    exact result_bind fun _ => rfl
  | pop stored =>
    have targeted := @targetOf_respelled names state.frames _ _ stored
    simp only [Machine.plan, State.rename, targeted]
    refine result_bind fun var => ?_
    cases state.data.top? <;> rfl
  | write symbol =>
    have valued := @valueOf_respelled names state.frames _ _ symbol
    simp only [Machine.plan, State.rename, valued]
    refine result_bind fun value => ?_
    simp only [id_eq]
    cases sink.refusal state.written value.display <;> rfl
  | jump name | call name =>
    simp only [Machine.plan, positionOf_respelled spelled]
    exact result_bind fun _ => rfl
  | branch onEqual name first second =>
    have firstValued := @valueOf_respelled names state.frames _ _ first
    have secondValued := @valueOf_respelled names state.frames _ _ second
    simp only [Machine.plan, State.rename, positionOf_respelled spelled, firstValued, secondValued]
    refine result_bind fun target => result_bind fun left => result_bind fun right => ?_
    refine bind_nameless (result_equality left right) fun equal => ?_
    cases equal == onEqual <;> rfl
  | ret =>
    simp only [Machine.plan, State.rename]
    cases state.calls.top? <;> rfl
  | exit symbol =>
    have valued := @valueOf_respelled names state.frames _ _ symbol
    simp only [Machine.plan, State.rename, valued]
    refine result_bind fun value => ?_
    exact bind_nameless (result_exitStatus value) fun _ => rfl

/-- READ takes its line in either spelling, as the name of a type is not changed. -/
theorem takesLine_respelled {instr instr' : Instruction} (formed : instr.isWellFormed = true)
    (respelled : instr.Respelled names instr') : takesLine instr' = takesLine instr := by
  obtain ⟨operation, operation', found, found', related⟩ := operation_respelled formed respelled
  rw [takesLine, takesLine, found, found']
  cases related <;> rfl

private theorem effect_respelled {instr instr' : Instruction} (spelled : code.Respelled names code')
    (formed : instr.isWellFormed = true) (respelled : instr.Respelled names instr') (sink : Sink)
    (state : State) :
    Machine.effect ⟨code', sink⟩ (state.rename names) instr' =
      names.result (·.rename names) (Machine.effect ⟨code, sink⟩ state instr) := by
  obtain ⟨operation, operation', found, found', related⟩ := operation_respelled formed respelled
  simp only [Machine.effect, found, found']
  exact plan_respelled spelled related sink state

/-- At every position there is an instruction in both spellings, or in neither. -/
theorem fetch_respelled (spelled : code.Respelled names code') (position : Nat) :
    (code.fetch? position = none ∧ code'.fetch? position = none) ∨
      ∃ instr instr', code.fetch? position = some instr ∧ code'.fetch? position = some instr' ∧
        instr.isWellFormed = true ∧ instr.Respelled names instr' := by
  have alike := spelled.instructions.length_eq
  cases fetched : code.fetch? position with
  | none =>
    refine .inl ⟨rfl, ?_⟩
    rw [fetch_none_iff, Code.size] at fetched ⊢
    rwa [← alike]
  | some instr =>
    obtain ⟨positive, held⟩ := fetch_some_iff.mp fetched
    obtain ⟨inside, rfl⟩ := List.getElem?_eq_some_iff.mp held
    have related := spelled.instructions.get inside (alike ▸ inside)
    refine .inr ⟨_, _, rfl, fetch_some_iff.mpr ⟨positive, ?_⟩, ?_, related⟩
    · exact List.getElem?_eq_getElem _
    · exact spelled.formed _ (List.getElem_mem inside)

private theorem fetched_respelled {instr instr' : Instruction} (formed : instr.isWellFormed = true)
    (respelled : instr.Respelled names instr') (state : State) :
    (state.rename names).fetched instr' = (state.fetched instr).rename names := by
  simp only [State.fetched, State.rename, takesLine_respelled formed respelled]

/-- A step in another spelling leads to the state with the other names. -/
theorem step_respelled (spelled : code.Respelled names code') (sink : Sink) (state : State) :
    Machine.step ⟨code', sink⟩ (state.rename names) =
      (Machine.step ⟨code, sink⟩ state).rename names := by
  have next : (state.rename names).next = state.next := rfl
  unfold Machine.step
  rcases fetch_respelled spelled state.next with ⟨nothing, nothing'⟩ |
    ⟨instr, instr', fetched, fetched', formed, respelled⟩
  · simp only [next, nothing, nothing']
    rfl
  · simp only [next, fetched, fetched', effect_respelled spelled formed respelled,
      fetched_respelled formed respelled, respelled.order]
    cases Machine.effect ⟨code, sink⟩ state instr with
    | error cause => rfl
    | ok effect =>
      cases effect <;> first
        | exact congrArg Progress.running (apply_rename _ _).symm
        | rfl

/-! ## Runs -/

/-- A run in another spelling, seen by somebody who makes the same of it in both. -/
theorem runWatched_respelled {σ : Type} {watch watch' : σ → State → Instruction → σ}
    (spelled : code.Respelled names code')
    (alike : ∀ seen state instr instr', instr.Respelled names instr' →
      watch' seen (state.rename names) instr' = watch seen state instr)
    (sink : Sink) (fuel : Nat) (state : State) (seen : σ) :
    let ended := Machine.runWatched ⟨code, sink⟩ watch fuel state seen
    Machine.runWatched ⟨code', sink⟩ watch' fuel (state.rename names) seen =
      ⟨ended.outcome.map (·.rename names), ended.state.rename names, ended.seen⟩ := by
  induction fuel generalizing state seen with
  | zero => rfl
  | succ fuel ih =>
    have noted : Machine.observe ⟨code', sink⟩ watch' (state.rename names) seen =
        Machine.observe ⟨code, sink⟩ watch state seen := by
      have next : (state.rename names).next = state.next := rfl
      rcases fetch_respelled spelled state.next with ⟨nothing, nothing'⟩ |
        ⟨instr, instr', fetched, fetched', _, respelled⟩
      · simp only [Machine.observe, next, nothing, nothing']
      · simp only [Machine.observe, next, fetched, fetched',
          alike seen state instr instr' respelled]
    simp only [Machine.runWatched, step_respelled spelled, noted]
    cases Machine.step ⟨code, sink⟩ state with
    | running following => exact ih following _
    | finished outcome last => rfl

private theorem collect_respelled {α : Type} {note note' : State → Instruction → List α}
    (spelled : code.Respelled names code')
    (alike : ∀ state instr instr', instr.Respelled names instr' →
      note' (state.rename names) instr' = note state instr)
    (sink : Sink) (fuel : Nat) (state : State) :
    Machine.collect ⟨code', sink⟩ note' fuel (state.rename names) =
      Machine.collect ⟨code, sink⟩ note fuel state := by
  unfold Machine.collect
  rw [runWatched_respelled spelled ?_ sink fuel state []]
  intro noted state instr instr' respelled
  rw [noting, noting, alike state instr instr' respelled]

end

/-! ## Loading -/

/-- A label that can be added under its name can be added under its other name. -/
theorem add_respelled {table result : LabelTable} {position : Nat} {instr again : Instruction}
    (formed : instr.isWellFormed = true) (respelled : instr.Respelled names again)
    (added : table.add position instr = .ok result) :
    (table.rename names).add position again = .ok (result.rename names) := by
  obtain ⟨_, _, args⟩ := instr
  obtain ⟨order, opcode, args'⟩ := again
  obtain ⟨rfl, rfl, related⟩ := respelled
  unfold LabelTable.add at added ⊢
  by_cases labelled : opcode = .label
  · subst labelled
    rw [if_pos rfl] at added ⊢
    cases related with
    | nil => cases added
    | cons first rest =>
      simp only [Instruction.isWellFormed, Opcode.operands, List.zip_cons_cons, List.all_cons,
        Bool.and_eq_true] at formed
      simp only [label_respelled formed.2.1 first, position_rename] at added ⊢
      split at added
      · cases added
      · rename_i absent
        cases added
        rw [if_neg absent]
        rfl
  · rw [if_neg labelled] at added ⊢
    cases added
    rfl

private theorem addAll_respelled {instructions instructions' : List Instruction}
    {table result : LabelTable}
    {start : Nat} (related : List.Forall₂ (Instruction.Respelled names) instructions instructions')
    (formed : ∀ instr ∈ instructions, instr.isWellFormed = true)
    (added : table.addAll start instructions = .ok result) :
    (table.rename names).addAll start instructions' = .ok (result.rename names) := by
  induction related generalizing table start with
  | nil =>
    cases added
    rfl
  | cons first rest ih =>
    rw [LabelTable.addAll] at added ⊢
    split at added
    · cases added
    · rename_i next here
      rw [add_respelled (formed _ List.mem_cons_self) first here]
      exact ih (fun instr member => formed instr (List.mem_cons_of_mem _ member)) added

private theorem check_respelled {instructions instructions' : List Instruction} {last : UInt32}
    (related : List.Forall₂ (Instruction.Respelled names) instructions instructions') :
    Code.check last instructions' = Code.check last instructions := by
  induction related generalizing last with
  | nil => rfl
  | cons first rest ih =>
    simp only [Code.check, first.order, first.opcode, isWellFormed_respelled first, ih]

/-- A program that loads also loads in another spelling. -/
theorem load_respelled {program again : Program} {code : Code}
    (loaded : Code.load program = .ok code) (respelled : program.Respelled names again) :
    ∃ code', Code.load again = .ok code' ∧ code.Respelled names code' := by
  have related := sorted_related (fun _ _ spelled => spelled.order) respelled
  obtain ⟨checked, built, instructions⟩ := load_ok_iff.mp loaded
  have formed := (check_ok_iff.mp checked).2
  have passed := (check_respelled related).trans checked
  have builtToo := addAll_respelled related formed built
  refine ⟨⟨again.sorted, code.labels.rename names⟩,
    load_ok_iff.mpr ⟨passed, builtToo, rfl⟩, ?_, rfl, ?_⟩
  · rwa [instructions]
  · rwa [instructions]

/-- Names and spellings do not matter. A program that loads also loads if its labels and its
variables are given other names, different ones for different ones, and if literals are spelled
in other ways that have the same values. On every input and for every sink, both programs go
past the same positions with the same orders and opcodes, and they are alike at every time:
the frames are the same up to the names, and the stacks, the input that is left and the output
are the same. A run that ends also ends in the other spelling, and with the same status; a
fault is at the same order, and differs only in the names that its cause reports. -/
theorem spelling_does_not_matter {names : Renaming} {program again : Program} {code : Code}
    (loaded : Code.load program = .ok code) (respelled : program.Respelled names again) :
    ∃ code', Code.load again = .ok code' ∧ ∀ sink input fuel,
      let ended := Machine.run ⟨code, sink⟩ fuel (.initial input)
      let endedToo := Machine.run ⟨code', sink⟩ fuel (.initial input)
      let passes : State → Instruction → List (Nat × UInt32 × Opcode) :=
        fun state instr => [(state.next, instr.order, instr.opcode)]
      Machine.collect ⟨code', sink⟩ passes fuel (.initial input) =
          Machine.collect ⟨code, sink⟩ passes fuel (.initial input) ∧
        endedToo.outcome = ended.outcome.map (·.rename names) ∧
        endedToo.outcome.map Outcome.status = ended.outcome.map Outcome.status ∧
        endedToo.state = ended.state.rename names ∧
        endedToo.state.output = ended.state.output := by
  obtain ⟨code', loadedToo, spelled⟩ := load_respelled loaded respelled
  refine ⟨code', loadedToo, fun sink input fuel => ?_⟩
  intro ended endedToo passes
  have alike : ∀ state instr instr', instr.Respelled names instr' →
      passes (state.rename names) instr' = passes state instr := by
    intro state instr instr' same
    simp only [passes, State.rename, same.order, same.opcode]
  have ends : endedToo = ⟨ended.outcome.map (·.rename names), ended.state.rename names, ()⟩ :=
    runWatched_respelled spelled (fun _ _ _ _ _ => rfl) sink fuel (.initial input) ()
  rw [ends]
  refine ⟨collect_respelled spelled alike sink fuel (.initial input), rfl, ?_, rfl, rfl⟩
  cases ended.outcome with
  | none => rfl
  | some outcome => exact congrArg some (status_rename outcome)

/-- A program that jumps over the use of a variable that is not declared, and uses it later. -/
def plainlySpelled : Program :=
  ⟨[⟨1, .defVar, [⟨.var, "GF@x"⟩]⟩, ⟨2, .move, [⟨.var, "GF@x"⟩, ⟨.literal .int, "0x10"⟩]⟩,
    ⟨3, .jump, [⟨.label, "end"⟩]⟩, ⟨4, .write, [⟨.var, "GF@y"⟩]⟩, ⟨5, .label, [⟨.label, "end"⟩]⟩,
    ⟨6, .write, [⟨.var, "GF@x"⟩]⟩, ⟨9, .pushs, [⟨.var, "GF@y"⟩]⟩]⟩

/-- The same program with the two names exchanged, another label and another numeral. -/
def otherwiseSpelled : Program :=
  ⟨[⟨1, .defVar, [⟨.var, "GF@y"⟩]⟩, ⟨2, .move, [⟨.var, "GF@y"⟩, ⟨.literal .int, "16"⟩]⟩,
    ⟨3, .jump, [⟨.label, "JUMP@end"⟩]⟩, ⟨4, .write, [⟨.var, "GF@x"⟩]⟩,
    ⟨5, .label, [⟨.label, "JUMP@end"⟩]⟩, ⟨6, .write, [⟨.var, "GF@y"⟩]⟩,
    ⟨9, .pushs, [⟨.var, "GF@x"⟩]⟩]⟩

/-- The renaming that exchanges two names and puts a mark before every label. -/
def exchange : Renaming where
  label name := "JUMP@" ++ name
  var := Equiv.swap "x" "y"
  label_injective := fun _ _ same => String.append_right_inj _ |>.mp same
  var_injective := (Equiv.swap "x" "y").injective
  filled name named := by
    rw [Equiv.swap_apply_def]
    split
    · decide
    · split
      · decide
      · exact named

theorem exchanged_names_run_alike :
    Code.load plainlySpelled = .ok ⟨plainlySpelled.instructions, ⟨[("end", 5)]⟩⟩ ∧
    plainlySpelled.Respelled exchange otherwiseSpelled ∧
    ∃ code', Code.load otherwiseSpelled = .ok code' ∧
      (Machine.run ⟨code', .accepting⟩ 9 (.initial {})).outcome =
        some (.failed ⟨9, .undefinedVariable ⟨.globalFrame, "x"⟩⟩) ∧
      (Machine.run ⟨code', .accepting⟩ 9 (.initial {})).state.output = "16" := by
  have loaded : Code.load plainlySpelled = .ok ⟨plainlySpelled.instructions, ⟨[("end", 5)]⟩⟩ :=
    load_of_listed rfl rfl rfl
  have first : exchange.spelling "GF@x" = "GF@y" := by decide +kernel
  have second : exchange.spelling "GF@y" = "GF@x" := by decide +kernel
  have numeral : Argument.Respelled exchange ⟨.literal .int, "0x10"⟩ ⟨.literal .int, "16"⟩ := by
    refine @Argument.Respelled.literal exchange .int "0x10" "16" (.int 16) ?_ ?_ <;> decide +kernel
  have varX : Argument.Respelled exchange ⟨.var, "GF@x"⟩ ⟨.var, "GF@y"⟩ := first ▸ .var "GF@x"
  have varY : Argument.Respelled exchange ⟨.var, "GF@y"⟩ ⟨.var, "GF@x"⟩ := second ▸ .var "GF@y"
  have label : Argument.Respelled exchange ⟨.label, "end"⟩ ⟨.label, "JUMP@end"⟩ := .label "end"
  have respelled : plainlySpelled.Respelled exchange otherwiseSpelled :=
    .cons ⟨rfl, rfl, .cons varX .nil⟩ <| .cons ⟨rfl, rfl, .cons varX (.cons numeral .nil)⟩ <|
    .cons ⟨rfl, rfl, .cons label .nil⟩ <| .cons ⟨rfl, rfl, .cons varY .nil⟩ <|
    .cons ⟨rfl, rfl, .cons label .nil⟩ <| .cons ⟨rfl, rfl, .cons varX .nil⟩ <|
    .cons ⟨rfl, rfl, .cons varY .nil⟩ .nil
  obtain ⟨code', loadedToo, alike⟩ := spelling_does_not_matter loaded respelled
  obtain ⟨_, outcome, _, _, output⟩ := alike .accepting {} 9
  refine ⟨loaded, respelled, code', loadedToo, ?_, ?_⟩
  · rw [outcome]
    decide +kernel
  · rw [output]
    decide +kernel

end Framecode.Engine
