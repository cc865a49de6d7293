import Framecode.Proofs.Engine.Failures
import Framecode.Proofs.Engine.Positions
import Framecode.Proofs.Engine.Runs
import Framecode.Proofs.Source.RoundTrip
import Framecode.Proofs.Source.Statistics
import Mathlib.Algebra.GroupWithZero.Nat

/-! Programs that only jump forward always end. A RETURN does go back, to positions that
calls have left, so the next position alone says nothing. But every position is worth more
than twice what lies behind it: a CALL gives up its own position for two later ones, its
target and the one to return to, and a RETURN gives up its own for nothing. What the next
position and the pending calls are worth together is therefore less after every step. -/
namespace Framecode.Engine

open Source

/-! ## The worth of positions -/

/-- The worth of a position. Code from there on takes no more steps than this before it
returns or comes to its end. -/
def Code.weight (code : Code) (position : Nat) : Nat := 2 ^ (code.size + 1 - position) - 1

/-- What a state can still do: the worth of the next position and of all pending calls. -/
def Code.workload (code : Code) (state : State) : Nat :=
  code.weight state.next + (state.calls.items.map code.weight).sum

variable {program : Program} {code : Code} {machine : Machine}

/-- A position with an instruction is worth more than twice the position behind it. -/
theorem weight_of_inside {position : Nat} (inside : position ≤ code.size) :
    code.weight position = 2 * code.weight (position + 1) + 1 := by
  have positive : 0 < 2 ^ (code.size + 1 - (position + 1)) := Nat.two_pow_pos _
  have further : code.size + 1 - position = code.size + 1 - (position + 1) + 1 := by omega
  rw [Code.weight, Code.weight, further, Nat.pow_succ]
  omega

/-- Positions further down are worth no more than the next one. -/
theorem weight_of_behind {position target : Nat} (behind : position < target) :
    code.weight target ≤ code.weight (position + 1) := by
  have fewer : 2 ^ (code.size + 1 - target) ≤ 2 ^ (code.size + 1 - (position + 1)) :=
    Nat.pow_le_pow_right (by omega) (by omega)
  exact Nat.sub_le_sub_right fewer 1

/-! ## Forward programs -/

/-- Every jump and every call names a label that is not defined, or one that is defined
further down in the order of execution. -/
def ForwardOnly (program : Program) : Prop :=
  ∀ position instr name, StandsAt program position instr → instr.opcode ∈ jumpOpcodes →
    instr.args.head?.map Argument.text = some name →
    ∀ target other, StandsAt program target other → Defines other name → position < target

/-- In a forward program, a label that an instruction may go to stands behind it. -/
theorem target_behind (loaded : Code.load program = .ok code) (forward : ForwardOnly program)
    {position target : Nat} {instr : Instruction} {operation : Operation} {name : String}
    (fetched : code.fetch? position = some instr) (found : operation? instr = some operation)
    (named : operation.label? = some name) (known : code.labels.position? name = some target) :
    position < target := by
  have formed := (load_ok loaded).2.1 instr (fetch_member fetched)
  obtain ⟨jumps, head⟩ := (fitting_of_well_formed formed found).label name named
  obtain ⟨order, stands⟩ := (label_exact loaded name target).mp known
  exact forward position instr name (stands_at_of_fetch loaded fetched) jumps (by rw [head]; rfl)
    target _ stands ⟨rfl, rfl⟩

/-- Every step of a forward program leaves less to do. -/
theorem workload_decreases (loaded : Code.load program = .ok machine.code)
    (forward : ForwardOnly program) {state next : State}
    (ran : machine.step state = .running next) :
    machine.code.workload next < machine.code.workload state := by
  obtain ⟨instr, operation, effect, fetched, found, planned, _, rfl⟩ := step_running_iff.mp ran
  have here := weight_of_inside (fetch_bounds fetched).2
  cases planned with
  | jump known | taken known =>
    have behind := target_behind loaded forward fetched found rfl known
    have less := @weight_of_behind machine.code _ _ behind
    simp only [Code.workload, State.apply, fetched_calls]
    omega
  | call known =>
    have behind := target_behind loaded forward fetched found rfl known
    have less := @weight_of_behind machine.code _ _ behind
    simp only [Code.workload, State.apply, Stack.push, fetched_calls, fetched_next, List.map_cons,
      List.sum_cons]
    omega
  | ret pending =>
    have whole := items_of_top pending
    simp only [Code.workload, State.apply, fetched_calls]
    rw [whole, List.map_cons, List.sum_cons]
    omega
  | _ =>
    simp only [Code.workload, State.apply, fetched_calls, fetched_next]
    omega

/-! ## Back jumps in source text -/

/-- A numbered sequence that loads is in the order of execution already, since it cannot be
so long that its numbers start again. -/
theorem sorted_of_load_sequence {sequence : List (Opcode × List Argument)}
    (loaded : Code.load (.ofSequence sequence) = .ok code) :
    (Program.ofSequence sequence).sorted = (Program.ofSequence sequence).instructions := by
  have few : sequence.length < UInt32.size := by
    rw [← number_length 1 sequence]
    exact few_of_load loaded
  refine sorted_of_numbered ?_
  intro index instr held
  rw [Program.ofSequence, number_getElem] at held
  obtain ⟨item, itemHeld, rfl⟩ := Option.map_eq_some_iff.mp held
  have inside := (List.getElem?_eq_some_iff.mp itemHeld).1
  simp only [UInt32.toNat_ofNat']
  rw [Nat.mod_eq_of_lt (by simp only [UInt32.size] at few; omega)]
  omega

/-- An instruction with arguments has a label for the statistics. -/
theorem head_of_counted {instr : Instruction} (counted : instr.args.length = instr.opcode.arity)
    (needs : 0 < instr.opcode.arity) :
    instr.args.head?.map Argument.text = some (Stats.labelOf instr) := by
  obtain ⟨order, opcode, args⟩ := instr
  cases args with
  | nil => exact absurd counted.symm (Nat.ne_of_gt needs)
  | cons first rest => rfl

private theorem arity_of_jump {opcode : Opcode} (jumps : opcode ∈ jumpOpcodes) :
    0 < opcode.arity := by
  simp only [jumpOpcodes, List.mem_cons, List.not_mem_nil, or_false] at jumps
  rcases jumps with rfl | rfl | rfl | rfl <;> decide

/-- The LABEL of a name is what defines that name. -/
theorem labels_iff_defines {instr : Instruction}
    (counted : instr.args.length = instr.opcode.arity) (name : String) :
    Stats.labels? name instr = true ↔ Defines instr name := by
  simp only [Stats.labels?, Bool.and_eq_true, decide_eq_true_eq, Defines]
  refine and_congr_right fun labelled => ?_
  have needs : 0 < instr.opcode.arity := by
    rw [labelled]
    decide
  rw [head_of_counted counted needs, Option.some.injEq]

/-- A loaded program has the LABEL of a name at one position only. -/
theorem defined_once (loaded : Code.load program = .ok code) {name : String} {first second : Nat}
    {left right : Instruction} (stands : StandsAt program first left)
    (standsToo : StandsAt program second right) (defines : Defines left name)
    (definesToo : Defines right name) : first = second := by
  obtain ⟨sorted, _, built⟩ := load_ok loaded
  have known := LabelTable.position_ofInstructions built name
  rw [sorted] at known
  have here := (known first).mpr ⟨first - 1, left, stands.2, by have := stands.1; omega, defines⟩
  have there := (known second).mpr
    ⟨second - 1, right, standsToo.2, by have := standsToo.1; omega, definesToo⟩
  exact Option.some.inj (here.symm.trans there)

private theorem stands_at_of_listed (listed : program.sorted = program.instructions) {index : Nat}
    {instr : Instruction} (held : program.instructions[index]? = some instr) :
    StandsAt program (index + 1) instr := by
  refine ⟨Nat.le_add_left 1 index, ?_⟩
  rw [listed]
  exact held

private theorem counted_of_held (loaded : Code.load program = .ok code) {index : Nat}
    {instr : Instruction}
    (held : program.instructions[index]? = some instr) :
    instr.args.length = instr.opcode.arity :=
  counted_of_load loaded instr ((loaded_mem_iff loaded).mpr (List.mem_of_getElem? held))

section

variable (loaded : Code.load program = .ok code) (listed : program.sorted = program.instructions)
include loaded listed

/-- The first LABEL of a name is the only one. -/
theorem first_label_iff {name : String} {index : Nat} :
    program.instructions.findIdx? (Stats.labels? name) = some index ↔
      ∃ instr, StandsAt program (index + 1) instr ∧ Defines instr name := by
  have first : ∀ index, program.instructions.findIdx? (Stats.labels? name) = some index →
      ∃ instr, StandsAt program (index + 1) instr ∧ Defines instr name := by
    intro index found
    obtain ⟨inside, labelled, _⟩ := List.findIdx?_eq_some_iff_getElem.mp found
    have held := List.getElem?_eq_getElem inside
    refine ⟨_, stands_at_of_listed listed held, ?_⟩
    exact (labels_iff_defines (counted_of_held loaded held) name).mp labelled
  refine ⟨first index, ?_⟩
  rintro ⟨instr, stands, defines⟩
  have held := stands.2
  rw [listed, Nat.add_sub_cancel] at held
  cases found : program.instructions.findIdx? (Stats.labels? name) with
  | none =>
    have unlabelled := List.findIdx?_eq_none_iff.mp found instr (List.mem_of_getElem? held)
    rw [(labels_iff_defines (counted_of_held loaded held) name).mpr defines] at unlabelled
    cases unlabelled
  | some earliest =>
    obtain ⟨other, standsToo, definesToo⟩ := first earliest found
    have same := defined_once loaded standsToo stands definesToo defines
    rw [Nat.succ.inj same]

/-- Where a program is listed in the order of execution, it is a forward program exactly
when its statistics count no back jump. -/
theorem forward_iff_backJumps (comments : Nat) :
    (Stats.ofProgram program comments).backJumps = 0 ↔ ForwardOnly program := by
  rw [Stats.backJumps_zero_iff]
  constructor
  · intro forward position instr name stands jumps head target other standsToo defines
    obtain ⟨index, rfl⟩ := Nat.exists_eq_add_of_le' stands.1
    obtain ⟨first, rfl⟩ := Nat.exists_eq_add_of_le' standsToo.1
    have held := stands.2
    rw [listed, Nat.add_sub_cancel] at held
    have named : Stats.labelOf instr = name := by rw [Stats.labelOf, head, Option.getD_some]
    have found := (first_label_iff loaded listed).mpr ⟨other, standsToo, defines⟩
    have notBefore := forward index instr held jumps first (by rw [named, found])
    -- A jump is no LABEL, so the two are not at one position.
    have apart : index ≠ first := by
      rintro rfl
      cases stands.2.symm.trans standsToo.2
      rw [defines.1] at jumps
      exact absurd jumps (by decide)
    omega
  · intro forward index instr held jumps first found
    obtain ⟨other, standsToo, defines⟩ := (first_label_iff loaded listed).mp found
    have head := head_of_counted (counted_of_held loaded held) (arity_of_jump jumps)
    have behind := forward (index + 1) instr _ (stands_at_of_listed listed held) jumps head
      (first + 1) other standsToo defines
    omega

end

/-- Programs that only jump forward always end. If every jump and call of a loaded program
of `n` instructions names a label that is not defined or one further down, then whatever
its input and its sink, and however often it returns, a run ends within `2 ^ n` steps. For
a program that comes from source text this is so exactly when its statistics count no back
jump. -/
theorem forward_programs_end (loaded : Code.load program = .ok machine.code) :
    (ForwardOnly program → ∀ input, ∃ outcome,
      (machine.run (2 ^ program.instructions.length) (.initial input)).outcome = some outcome) ∧
    ∀ text stats, assembleWithStats text = .ok (program, stats) →
      (stats.backJumps = 0 ↔ ForwardOnly program) := by
  constructor
  · intro forward input
    refine ends_of_decreasing (fun _ _ => workload_decreases loaded forward) ?_
    have positive : 0 < 2 ^ machine.code.size := Nat.two_pow_pos _
    simp only [← code_size_of_load loaded, Code.workload, Code.weight, State.initial, List.map_nil,
      List.sum_nil, Nat.add_sub_cancel]
    omega
  · intro text stats assembled
    obtain ⟨read, rfl⟩ := assembleWithStats_ok_iff.mp assembled
    obtain ⟨_, _, sequence, _, _, rfl, _⟩ := assembled_sequence read
    exact forward_iff_backJumps loaded (sorted_of_load_sequence loaded) _

/-- A source text that runs its last lines twice, by falling into them after a call. -/
def returningText : String := ".IPPcode24\nCALL again\nLABEL again\nRETURN"

/-- The program that it spells. -/
def returning : Program :=
  ⟨[⟨1, .call, [⟨.label, "again"⟩]⟩, ⟨2, .label, [⟨.label, "again"⟩]⟩, ⟨3, .ret, []⟩]⟩

/-- The same program once it is loaded. -/
def returningCode : Code := ⟨returning.instructions, ⟨[("again", 2)]⟩⟩

theorem returning_program_ends :
    Code.load returning = .ok returningCode ∧
    assembleWithStats returningText = .ok (returning, .ofProgram returning 0) ∧
    (Stats.ofProgram returning 0).backJumps = 0 ∧
    ForwardOnly returning ∧
    ∃ outcome, (Machine.run ⟨returningCode, .accepting⟩ 8 (.initial {})).outcome =
      some outcome := by
  have loaded : Code.load returning = .ok returningCode := load_of_listed rfl rfl rfl
  have assembled : assembleWithStats returningText = .ok (returning, .ofProgram returning 0) := by
    decide +kernel
  have none : (Stats.ofProgram returning 0).backJumps = 0 := by decide +kernel
  obtain ⟨ends, counts⟩ := @forward_programs_end returning ⟨returningCode, .accepting⟩ loaded
  have forward := (counts returningText _ assembled).mp none
  exact ⟨loaded, assembled, none, forward, ends forward {}⟩

end Framecode.Engine
