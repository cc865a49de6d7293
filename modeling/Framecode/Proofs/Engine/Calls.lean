import Framecode.Proofs.Engine.Agreement
import Framecode.Proofs.Engine.Positions
import Framecode.Proofs.Engine.Runs

/-! Calls and returns are well bracketed. The pending calls are a stack to which only
CALL adds, and what it adds is the position behind itself. Only RETURN takes something
off, and it goes on at what it takes. A subroutine therefore comes back to its call in
the end or not at all, and no code in between can reach the calls that were pending
before. -/
namespace Framecode.Engine

variable {machine : Machine} {state next : State}

/-- What a step does to the pending calls: nothing, or what a CALL does, or what a
RETURN does. -/
theorem calls_of_step (ran : machine.step state = .running next) :
    next.calls = state.calls ∨ next.calls = state.calls.push (state.next + 1) ∨
      (next.calls = state.calls.pop ∧ state.calls.top? = some next.next) := by
  obtain ⟨instr, operation, effect, _, _, planned, _, rfl⟩ := step_running_iff.mp ran
  cases planned with
  | call => exact .inr (.inl rfl)
  | ret pending => exact .inr (.inr ⟨rfl, pending⟩)
  | _ => exact .inl rfl

/-- The pending calls move by one at most. -/
theorem calls_move (ran : machine.step state = .running next) :
    StackMove state.calls.items next.calls.items := by
  rcases calls_of_step ran with same | pushed | ⟨popped, top⟩
  · rw [same]
    exact .stays
  · rw [pushed]
    exact .grows (state.next + 1)
  · rw [popped, items_of_top top]
    exact .shrinks next.next

/-- A run goes on at the position that is taken off the pending calls. -/
theorem next_of_calls_popped {position : Nat} (ran : machine.step state = .running next)
    (popped : state.calls.items = position :: next.calls.items) : next.next = position := by
  rcases calls_of_step ran with same | pushed | ⟨_, top⟩
  · rw [same] at popped
    exact absurd popped (List.cons_ne_self _ _).symm
  · have lengths := congrArg List.length popped
    rw [pushed] at lengths
    simp only [Stack.push, List.length_cons] at lengths
    omega
  · rw [Stack.top?, popped] at top
    exact (Option.some.inj top).symm

/-- The last step of a run leaves the pending calls alone. -/
theorem calls_of_finished {outcome : Outcome} {last : State}
    (ran : machine.step state = .finished outcome last) : last.calls = state.calls := by
  rcases last_of_finished ran with rfl | ⟨instr, rfl⟩ <;> rfl

private theorem operation_of_call {instr : Instruction} {operation : Operation}
    (found : operation? instr = some operation) (calling : instr.opcode = .call) :
    ∃ label, operation = .call label := by
  have counted := counted_of_operation found
  obtain ⟨order, opcode, args⟩ := instr
  cases calling
  obtain ⟨label, rfl⟩ := List.length_eq_one_iff.mp counted
  cases found
  exact ⟨label.text, rfl⟩

/-- A CALL leaves the position behind itself on top of the pending calls. -/
theorem calls_of_call {instr : Instruction} (fetched : machine.code.fetch? state.next = some instr)
    (calling : instr.opcode = .call) (ran : machine.step state = .running next) :
    next.calls.items = (state.next + 1) :: state.calls.items := by
  obtain ⟨_, operation, effect, same, found, planned, _, rfl⟩ := step_running_iff.mp ran
  cases fetched.symm.trans same
  obtain ⟨label, rfl⟩ := operation_of_call found calling
  cases planned
  rfl

/-- Calls and returns are well bracketed. After a CALL the pending calls are those from
before it with the position behind it on top, and perhaps more on top of that, for as
long as there are more of them than before. When there are as many again for the first
time, they are exactly those from before, and the run goes on behind the CALL. -/
theorem calls_well_bracketed {entered : State} {instr : Instruction}
    (fetched : machine.code.fetch? state.next = some instr) (calling : instr.opcode = .call)
    (ran : machine.step state = .running entered) (steps : Nat)
    (inside : ∀ earlier < steps,
      (machine.after earlier entered).calls.size ≠ state.calls.size) :
    ((machine.after steps entered).calls.size ≠ state.calls.size →
      (state.next + 1) :: state.calls.items <:+ (machine.after steps entered).calls.items) ∧
    ((machine.after steps entered).calls.size = state.calls.size →
      (machine.after steps entered).calls = state.calls ∧
        (machine.after steps entered).next = state.next + 1) := by
  have lies : (state.next + 1) :: state.calls.items <:+ entered.calls.items :=
    calls_of_call fetched calling ran ▸ List.suffix_rfl
  obtain ⟨kept, returned⟩ := held_until_shorter (fun state => state.calls.items)
    (fun _ _ => calls_move) (fun _ _ _ ended => by rw [calls_of_finished ended]) lies steps inside
  refine ⟨kept, fun same => ?_⟩
  obtain ⟨whole, before, pending, back⟩ := returned same
  refine ⟨?_, next_of_calls_popped back (by rw [pending, whole])⟩
  exact (Stack.mk.injEq ..).mpr whole

/-- A program in which one subroutine calls another. -/
def nesting : Program :=
  ⟨[⟨1, .call, [⟨.label, "outer"⟩]⟩, ⟨2, .exit, [⟨.literal .int, "0"⟩]⟩,
    ⟨3, .label, [⟨.label, "outer"⟩]⟩, ⟨4, .call, [⟨.label, "inner"⟩]⟩, ⟨5, .ret, []⟩,
    ⟨6, .label, [⟨.label, "inner"⟩]⟩, ⟨7, .ret, []⟩]⟩

/-- The machine that runs it. -/
def nestingMachine : Machine :=
  ⟨⟨nesting.instructions, ⟨[("inner", 6), ("outer", 3)]⟩⟩, .accepting⟩

theorem inner_call_bracketed :
    Code.load nesting = .ok nestingMachine.code ∧
    Reached nestingMachine {} { calls := ⟨[2]⟩, next := 4 } ∧
    nestingMachine.step { calls := ⟨[2]⟩, next := 4 } =
      .running { calls := ⟨[5, 2]⟩, next := 6 } ∧
    (nestingMachine.after 2 { calls := ⟨[5, 2]⟩, next := 6 }).calls.size = 1 ∧
    (nestingMachine.after 2 { calls := ⟨[5, 2]⟩, next := 6 }).calls = ⟨[2]⟩ ∧
    (nestingMachine.after 2 { calls := ⟨[5, 2]⟩, next := 6 }).next = 5 := by
  have loaded : Code.load nesting = .ok nestingMachine.code := load_of_listed rfl rfl rfl
  have entered : Reached nestingMachine {} { calls := ⟨[2]⟩, next := 3 } := .step .initial rfl
  have reached : Reached nestingMachine {} { calls := ⟨[2]⟩, next := 4 } := .step entered rfl
  have ran : nestingMachine.step { calls := ⟨[2]⟩, next := 4 } =
      .running { calls := ⟨[5, 2]⟩, next := 6 } := rfl
  have back : (nestingMachine.after 2 { calls := ⟨[5, 2]⟩, next := 6 }).calls.size = 1 := rfl
  have inside : ∀ earlier < 2,
      (nestingMachine.after earlier { calls := ⟨[5, 2]⟩, next := 6 }).calls.size ≠ 1 := by
    decide
  have bracketed := calls_well_bracketed rfl rfl ran 2 inside
  exact ⟨loaded, reached, ran, back, bracketed.2 back⟩

end Framecode.Engine
