import Framecode.Proofs.Engine.Loading
import Framecode.Proofs.Engine.Steps
import Framecode.Proofs.Sorting
import Mathlib.Data.List.Perm.Subperm

/-! Where a run can stand. The next position, the positions that calls return to and
the positions of labels all count the sorted instructions from one, and the next
position is already advanced when an instruction takes effect. A run therefore never
leaves the program except right behind its last instruction. -/
namespace Framecode.Engine

/-- The instruction at a position of a program in the order of execution, counted
from one. -/
def StandsAt (program : Program) (position : Nat) (instr : Instruction) : Prop :=
  1 ≤ position ∧ program.sorted[position - 1]? = some instr

/-- The next position is at an instruction or right behind the last one, and every
pending call returns to the position after a CALL. -/
structure Placed (code : Code) (state : State) : Prop where
  positive : 1 ≤ state.next
  bounded : state.next ≤ code.size + 1
  returns : ∀ position ∈ state.calls.items, 2 ≤ position ∧ position ≤ code.size + 1 ∧
    ∃ instr, code.fetch? (position - 1) = some instr ∧ instr.opcode = .call

/-- A position that has an instruction lies in the program. -/
theorem fetch_bounds {code : Code} {position : Nat} {instr : Instruction}
    (fetched : code.fetch? position = some instr) : 1 ≤ position ∧ position ≤ code.size := by
  obtain ⟨positive, held⟩ := fetch_some_iff.mp fetched
  have inside := (List.getElem?_eq_some_iff.mp held).1
  simp only [Code.size]
  omega

/-- A label of a loaded program stands at one of its positions. -/
theorem label_bounds {program : Program} {code : Code} (loaded : Code.load program = .ok code)
    {label : String} {target : Nat} (found : code.labels.position? label = some target) :
    1 ≤ target ∧ target ≤ code.size := by
  obtain ⟨_, _, built⟩ := load_ok loaded
  obtain ⟨index, instr, held, rfl, _⟩ := (LabelTable.position_ofInstructions built label target).mp found
  have inside := (List.getElem?_eq_some_iff.mp held).1
  simp only [Code.size]
  omega

private theorem opcode_of_call {instr : Instruction} {label : String}
    (found : operation? instr = some (.call label)) : instr.opcode = .call := by
  obtain ⟨order, opcode, args⟩ := instr
  -- No opcode takes four arguments, so five lengths decide every row of the table.
  rcases args with _ | ⟨first, _ | ⟨second, _ | ⟨third, _ | ⟨fourth, more⟩⟩⟩⟩ <;>
    cases opcode <;> first | rfl | cases found

@[simp] theorem fetched_next (state : State) (instr : Instruction) :
    (state.fetched instr).next = state.next + 1 := rfl

@[simp] theorem fetched_calls (state : State) (instr : Instruction) :
    (state.fetched instr).calls = state.calls := rfl

/-- Fetching an instruction moves to the position behind it and leaves the pending
calls alone. -/
theorem fetched_placed {code : Code} {state : State} {instr : Instruction}
    (placed : Placed code state) (fetched : code.fetch? state.next = some instr) :
    Placed code (state.fetched instr) where
  positive := by simp
  bounded := by
    have := (fetch_bounds fetched).2
    simp only [fetched_next]
    omega
  returns := placed.returns

/-- Every effect of a fetched instruction keeps the run in its program. Only jumps,
calls and returns look at positions: the first two go to a label, and a return goes
to where a call left a position. -/
theorem apply_placed {program : Program} {machine : Machine} {state : State} {instr : Instruction}
    {operation : Operation} {effect : Effect} (loaded : Code.load program = .ok machine.code)
    (placed : Placed machine.code state) (fetched : machine.code.fetch? state.next = some instr)
    (found : operation? instr = some operation) (planned : Planned machine state operation effect) :
    Placed machine.code ((state.fetched instr).apply effect) := by
  have behind := fetched_placed placed fetched
  cases planned with
  | store | read | define | createFrame | pushFrame | popFrame | push | pop | write =>
    exact ⟨behind.positive, behind.bounded, behind.returns⟩
  | label | passed | exit | dprint | breakpoint => exact behind
  | jump known | taken known =>
    obtain ⟨positive, bounded⟩ := label_bounds loaded known
    exact ⟨positive, Nat.le_succ_of_le bounded, behind.returns⟩
  | call known =>
    obtain ⟨positive, bounded⟩ := label_bounds loaded known
    refine ⟨positive, Nat.le_succ_of_le bounded, ?_⟩
    intro position member
    rcases List.mem_cons.mp member with rfl | earlier
    · -- The new entry is the advanced position, one behind the CALL itself.
      refine ⟨?_, behind.bounded, instr, by simpa using fetched, opcode_of_call found⟩
      have := placed.positive
      simp only [fetched_next]
      omega
    · exact placed.returns position earlier
  | ret pending =>
    have member := List.mem_of_mem_head? pending
    obtain ⟨positive, bounded, _⟩ := placed.returns _ member
    refine ⟨Nat.le_of_succ_le positive, bounded, ?_⟩
    intro position later
    exact placed.returns position (List.mem_of_mem_tail later)

private theorem initial_placed (code : Code) (input : Input) : Placed code (.initial input) where
  positive := Nat.le_refl 1
  bounded := Nat.le_add_left 1 _
  returns := by
    intro position member
    cases member

/-- Every state that a run of a loaded program reaches is placed in it. -/
theorem reached_placed {program : Program} {machine : Machine} {input : Input} {state : State}
    (loaded : Code.load program = .ok machine.code) (reached : Reached machine input state) :
    Placed machine.code state := by
  refine reached_induction (initial_placed machine.code input) ?_ reached
  intro state next _ placed ran
  obtain ⟨instr, operation, effect, fetched, found, planned, _, rfl⟩ := step_running_iff.mp ran
  exact apply_placed loaded placed fetched found planned

/-- The label table of a loaded program is exact: a name has a position exactly when
the instruction there is the LABEL of that name. -/
theorem label_exact {program : Program} {code : Code} (loaded : Code.load program = .ok code)
    (name : String) (position : Nat) :
    code.labels.position? name = some position ↔
      ∃ order, StandsAt program position ⟨order, .label, [⟨.label, name⟩]⟩ := by
  obtain ⟨sorted, formed, built⟩ := load_ok loaded
  rw [LabelTable.position_ofInstructions built]
  constructor
  · rintro ⟨index, instr, held, rfl, defined⟩
    obtain ⟨labelled, named⟩ :=
      (defines_iff_of_well_formed (formed instr (List.mem_of_getElem? held)) name).mp defined
    refine ⟨instr.order, Nat.le_add_left 1 index, ?_⟩
    rw [Nat.add_sub_cancel, ← sorted, held, ← labelled, ← named]
  · rintro ⟨order, positive, held⟩
    refine ⟨position - 1, _, by rw [sorted]; exact held, by omega, ?_⟩
    simp [Defines]

/-- A program whose list passes the check is listed in the order of execution, and is
loaded as it is listed. -/
theorem load_of_listed {program : Program} {code : Code}
    (checked : Code.check 0 program.instructions = .ok ())
    (built : LabelTable.ofInstructions program.instructions = .ok code.labels)
    (instructions : code.instructions = program.instructions) : Code.load program = .ok code := by
  have increasing := (check_ok_iff.mp checked).1.of_cons
  have sorted : program.sorted = program.instructions :=
    sorted_eq_self_iff.mpr ((List.pairwise_map.mp increasing).imp UInt32.le_of_lt)
  rw [← sorted] at checked built instructions
  exact load_ok_iff.mpr ⟨checked, built, instructions⟩

/-- No order of a loaded program is zero, and none stands twice. -/
theorem distinct_of_load {program : Program} {code : Code} (loaded : Code.load program = .ok code) :
    (0 :: program.instructions.map (·.order)).Nodup := by
  have increasing := (check_ok_iff.mp (load_ok_iff.mp loaded).1).1
  have distinct : (0 :: program.sorted.map (·.order)).Nodup := by
    refine List.nodup_iff_pairwise_ne.mpr (increasing.imp ?_)
    intro left right below same
    rw [same] at below
    exact UInt32.lt_irrefl right below
  exact (((sorted_perm program).map _).cons 0).nodup_iff.mp distinct

/-- A loaded program has fewer instructions than there are orders. -/
theorem few_of_load {program : Program} {code : Code} (loaded : Code.load program = .ok code) :
    program.instructions.length < UInt32.size := by
  have distinct := (distinct_of_load loaded).map fun _ _ => UInt32.toNat_inj.mp
  have bounded : (0 :: program.instructions.map (·.order)).map UInt32.toNat ⊆
      List.range UInt32.size := by
    intro order member
    obtain ⟨number, _, rfl⟩ := List.mem_map.mp member
    exact List.mem_range.mpr number.toNat_lt
  have atMost := (distinct.subperm bounded).length_le
  rw [List.length_range, List.length_map, List.length_cons, List.length_map] at atMost
  exact atMost

theorem code_size_of_load {program : Program} {code : Code} (loaded : Code.load program = .ok code) :
    code.size = program.instructions.length := by
  obtain ⟨sorted, _⟩ := load_ok loaded
  rw [Code.size, sorted]
  exact List.length_mergeSort _

theorem stands_at_of_fetch {program : Program} {code : Code} (loaded : Code.load program = .ok code)
    {position : Nat} {instr : Instruction} (fetched : code.fetch? position = some instr) :
    StandsAt program position instr := by
  obtain ⟨sorted, _⟩ := load_ok loaded
  rw [StandsAt, ← sorted]
  exact fetch_some_iff.mp fetched

/-- A placed run has nothing to fetch exactly when it stands behind its last
instruction. -/
theorem fetch_none_of_placed {code : Code} {state : State} (placed : Placed code state) :
    code.fetch? state.next = none ↔ state.next = code.size + 1 := by
  have positive := placed.positive
  have bounded := placed.bounded
  rw [fetch_none_iff]
  omega

/-- A run of a loaded program of `n` instructions is always at one of the positions
from one to `n + 1`. Pending calls return behind a CALL, every label is at the
position of its LABEL and at no other, and the run has nothing to fetch, and is
complete, only at position `n + 1`. -/
theorem run_stays_in_program {program : Program} {machine : Machine} {input : Input} {state : State}
    (loaded : Code.load program = .ok machine.code) (reached : Reached machine input state) :
    (1 ≤ state.next ∧ state.next ≤ program.instructions.length + 1) ∧
    (∀ position ∈ state.calls.items,
      2 ≤ position ∧ position ≤ program.instructions.length + 1 ∧
        ∃ instr, StandsAt program (position - 1) instr ∧ instr.opcode = .call) ∧
    (∀ name position, machine.code.labels.position? name = some position ↔
      1 ≤ position ∧ position ≤ program.instructions.length ∧
        ∃ order, StandsAt program position ⟨order, .label, [⟨.label, name⟩]⟩) ∧
    (machine.code.fetch? state.next = none ↔ state.next = program.instructions.length + 1) ∧
    (∀ last, machine.step state = .finished .completed last →
      last = state ∧ state.next = program.instructions.length + 1) ∧
    (∀ fuel, (machine.run fuel (.initial input)).outcome = some .completed →
      (machine.run fuel (.initial input)).state.next = program.instructions.length + 1) := by
  have placed := reached_placed loaded reached
  have size := code_size_of_load loaded
  rw [← size]
  refine ⟨⟨placed.positive, placed.bounded⟩, ?_, ?_, fetch_none_of_placed placed, ?_, ?_⟩
  · intro position member
    obtain ⟨positive, bounded, instr, fetched, called⟩ := placed.returns position member
    exact ⟨positive, bounded, instr, stands_at_of_fetch loaded fetched, called⟩
  · intro name position
    constructor
    · intro found
      obtain ⟨positive, bounded⟩ := label_bounds loaded found
      exact ⟨positive, bounded, (label_exact loaded name position).mp found⟩
    · rintro ⟨_, _, defined⟩
      exact (label_exact loaded name position).mpr defined
  · intro last ran
    obtain ⟨nothing, same⟩ := step_completed_iff.mp ran
    exact ⟨same, (fetch_none_of_placed placed).mp nothing⟩
  · intro fuel ended
    obtain ⟨before, earlier, ran⟩ := run_ends_in_step .initial ended
    obtain ⟨nothing, same⟩ := step_completed_iff.mp ran
    rw [Machine.run, same]
    exact (fetch_none_of_placed (reached_placed loaded earlier)).mp nothing

/-- A program that calls a subroutine further down. Its list is not in the order of
execution. -/
def calling : Program :=
  ⟨[⟨30, .label, [⟨.label, "double"⟩]⟩, ⟨10, .call, [⟨.label, "double"⟩]⟩,
    ⟨20, .exit, [⟨.literal .int, "0"⟩]⟩, ⟨40, .ret, []⟩]⟩

/-- The same program once it is loaded. -/
def callingCode : Code where
  instructions := [⟨10, .call, [⟨.label, "double"⟩]⟩, ⟨20, .exit, [⟨.literal .int, "0"⟩]⟩,
    ⟨30, .label, [⟨.label, "double"⟩]⟩, ⟨40, .ret, []⟩]
  labels := ⟨[("double", 3)]⟩

theorem run_inside_call_stays :
    Code.load calling = .ok callingCode ∧
    Reached ⟨callingCode, .accepting⟩ {} { calls := ⟨[2]⟩, next := 3 } ∧
    (∃ instr, StandsAt calling 1 instr ∧ instr.opcode = .call) ∧
    ∃ order, StandsAt calling 3 ⟨order, .label, [⟨.label, "double"⟩]⟩ := by
  have sorted : calling.sorted = callingCode.instructions :=
    sorted_unique (by decide) (by decide) (by unfold Ordered; decide)
  have loaded : Code.load calling = .ok callingCode := by
    rw [Code.load, sorted]
    rfl
  have reached : Reached ⟨callingCode, .accepting⟩ {} { calls := ⟨[2]⟩, next := 3 } :=
    .step .initial rfl
  obtain ⟨_, returns, labels, _⟩ :=
    @run_stays_in_program calling ⟨callingCode, .accepting⟩ {} _ loaded reached
  exact ⟨loaded, reached, (returns 2 (by simp)).2.2, ((labels "double" 3).mp rfl).2.2⟩

end Framecode.Engine
