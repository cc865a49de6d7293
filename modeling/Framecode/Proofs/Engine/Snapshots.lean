import Framecode.Proofs.Engine.Agreement
import Framecode.Proofs.Engine.Positions
import Framecode.Proofs.Engine.Runs
import Framecode.Proofs.Engine.Variables

/-! The data stack holds snapshots. PUSHS puts a value there, not a variable, so nothing
that happens to variables and frames later on can reach it. Only POPS takes values off,
the latest one first, and the value that it takes is the one that its target holds then. -/
namespace Framecode.Engine

variable {machine : Machine} {state next : State}

/-- A step is a POPS, and its target holds a given value afterwards. -/
def PopsInto (machine : Machine) (state next : State) (value : Value) : Prop :=
  ∃ instr target var, machine.code.fetch? state.next = some instr ∧
    instr.opcode = .pops ∧ instr.args = [target] ∧ target.varRef = .ok var ∧
    machine.step state = .running next ∧ next.frames.contents var = .ok (some value)

/-- What a step does to the data stack: nothing, or put a value on top, or what a POPS
does. -/
theorem data_of_step (ran : machine.step state = .running next) :
    next.data = state.data ∨ (∃ value, next.data = state.data.push value) ∨
      ∃ value, next.data = state.data.pop ∧ state.data.top? = some value ∧
        PopsInto machine state next value := by
  obtain ⟨instr, operation, effect, fetched, found, planned, _, rfl⟩ := step_running_iff.mp ran
  cases planned with
  | @push source value valued => exact .inr (.inl ⟨value, rfl⟩)
  | @pop target var value targeted held =>
    obtain ⟨popping, args⟩ := origin_of_operation found rfl
    obtain ⟨named, holds⟩ := Frames.contents_of_target targeted (some value)
    exact .inr (.inr ⟨value, rfl, held, instr, target, var, fetched, popping, args, named, ran,
      holds⟩)
  | _ => exact .inl rfl

/-- The data stack moves by one value at most. -/
theorem data_move (ran : machine.step state = .running next) :
    StackMove state.data.items next.data.items := by
  rcases data_of_step ran with same | ⟨value, pushed⟩ | ⟨value, popped, top, _⟩
  · rw [same]
    exact .stays
  · rw [pushed]
    exact .grows value
  · rw [popped, items_of_top top]
    exact .shrinks value

/-- A value that is taken off the data stack is taken by a POPS, for its target. -/
theorem popsInto_of_taken {value : Value} (ran : machine.step state = .running next)
    (taken : state.data.items = value :: next.data.items) : PopsInto machine state next value := by
  rcases data_of_step ran with same | ⟨other, pushed⟩ | ⟨other, _, top, popped⟩
  · rw [same] at taken
    exact absurd taken (List.cons_ne_self _ _).symm
  · have lengths := congrArg List.length taken
    rw [pushed] at lengths
    simp only [Stack.push, List.length_cons] at lengths
    omega
  · rw [Stack.top?, taken] at top
    cases top
    exact popped

/-- The last step of a run leaves the data stack alone. -/
theorem data_of_finished {outcome : Outcome} {last : State}
    (ran : machine.step state = .finished outcome last) : last.data = state.data := by
  rcases last_of_finished ran with rfl | ⟨instr, rfl⟩ <;> rfl

/-- A PUSHS leaves the value of its argument on top of the data stack. -/
theorem data_of_pushs {instr : Instruction} (fetched : machine.code.fetch? state.next = some instr)
    (pushing : instr.opcode = .pushs) (ran : machine.step state = .running next) :
    ∃ source value, instr.args = [source] ∧ state.frames.valueOf source = .ok value ∧
      next.data.items = value :: state.data.items := by
  obtain ⟨_, operation, effect, same, found, planned, _, rfl⟩ := step_running_iff.mp ran
  cases fetched.symm.trans same
  have counted := counted_of_operation found
  obtain ⟨order, opcode, args⟩ := instr
  cases pushing
  obtain ⟨source, rfl⟩ := List.length_eq_one_iff.mp counted
  cases found
  cases planned with
  | push valued => exact ⟨source, _, rfl, valued, rfl⟩

/-- The data stack holds snapshots, the latest one on top. After a PUSHS of a value, the
stack is the one from before it with that value on top, and perhaps more on top of that, for
as long as it is higher than before. When it is as high again for the first time, it is the
one from before, and the step that led there is a POPS whose target holds that very value. -/
theorem data_stack_holds_snapshots {pushed : State} {instr : Instruction}
    (fetched : machine.code.fetch? state.next = some instr) (pushing : instr.opcode = .pushs)
    (ran : machine.step state = .running pushed) :
    ∃ source value, instr.args = [source] ∧ state.frames.valueOf source = .ok value ∧
      ∀ steps, (∀ earlier < steps,
          (machine.after earlier pushed).data.size ≠ state.data.size) →
        ((machine.after steps pushed).data.size ≠ state.data.size →
          value :: state.data.items <:+ (machine.after steps pushed).data.items) ∧
        ((machine.after steps pushed).data.size = state.data.size →
          (machine.after steps pushed).data = state.data ∧
            ∃ before, steps = before + 1 ∧
              PopsInto machine (machine.after before pushed) (machine.after steps pushed) value) := by
  obtain ⟨source, value, args, valued, items⟩ := data_of_pushs fetched pushing ran
  refine ⟨source, value, args, valued, fun steps inside => ?_⟩
  have lies : value :: state.data.items <:+ pushed.data.items := items ▸ List.suffix_rfl
  have rests : ∀ state outcome last, machine.step state = .finished outcome last →
      last.data.items = state.data.items := fun _ _ _ ended => by rw [data_of_finished ended]
  obtain ⟨kept, emptied⟩ := held_until_shorter (fun state => state.data.items)
    (fun _ _ => data_move) rests lies steps inside
  refine ⟨kept, fun same => ⟨(Stack.mk.injEq ..).mpr (emptied same).1, ?_⟩⟩
  obtain ⟨before, last, taken, back⟩ := taken_when_shorter (fun state => state.data.items)
    (fun _ _ => data_move) rests lies inside same
  exact ⟨before, last, popsInto_of_taken back taken⟩

/-- A program that pushes a variable, gives it another value, pushes it again, and pops
both into it. -/
def overwriting : Program :=
  ⟨[⟨1, .defVar, [⟨.var, "GF@x"⟩]⟩, ⟨2, .move, [⟨.var, "GF@x"⟩, ⟨.literal .int, "1"⟩]⟩,
    ⟨3, .pushs, [⟨.var, "GF@x"⟩]⟩, ⟨4, .move, [⟨.var, "GF@x"⟩, ⟨.literal .bool, "true"⟩]⟩,
    ⟨5, .pushs, [⟨.var, "GF@x"⟩]⟩, ⟨6, .pops, [⟨.var, "GF@x"⟩]⟩, ⟨7, .pops, [⟨.var, "GF@x"⟩]⟩]⟩

/-- The machine that runs it. -/
def overwritingMachine : Machine := ⟨⟨overwriting.instructions, {}⟩, .accepting⟩

theorem first_push_comes_back :
    let state : State := { frames := { globals := ⟨[("x", some (.int 1))]⟩ }, next := 3 }
    let pushed : State := { state with data := ⟨[.int 1]⟩, next := 4 }
    Code.load overwriting = .ok overwritingMachine.code ∧
    Reached overwritingMachine {} state ∧
    overwritingMachine.step state = .running pushed ∧
    (overwritingMachine.after 4 pushed).data.size = 0 ∧
    (overwritingMachine.after 4 pushed).data = {} ∧
    PopsInto overwritingMachine (overwritingMachine.after 3 pushed)
      (overwritingMachine.after 4 pushed) (.int 1) := by
  intro state pushed
  have loaded : Code.load overwriting = .ok overwritingMachine.code := load_of_listed rfl rfl rfl
  have reached : Reached overwritingMachine {} state := .step (.step .initial rfl) rfl
  have ran : overwritingMachine.step state = .running pushed := rfl
  have back : (overwritingMachine.after 4 pushed).data.size = 0 := rfl
  have inside : ∀ earlier < 4,
      (overwritingMachine.after earlier pushed).data.size ≠ state.data.size := by
    decide
  obtain ⟨source, value, args, valued, later⟩ := data_stack_holds_snapshots rfl rfl ran
  cases args
  cases valued
  obtain ⟨same, before, last, popped⟩ := (later 4 inside).2 back
  cases last
  exact ⟨loaded, reached, ran, back, same, popped⟩

end Framecode.Engine
