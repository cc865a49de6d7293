import Framecode.Engine.Step

/-! Runs: steps until one is the last. A run is given fuel, and ends without an
outcome when that is used up. Somebody may watch it, and see every instruction
that is fetched and the state before it. -/
namespace Framecode.Engine

/-- The end of a run: the outcome, none when the fuel was used up; the last state;
and what the watcher has made of it. -/
structure Ended (σ : Type) where
  outcome : Option Outcome
  state : State
  seen : σ

/-- What a watcher makes of the next step. -/
def Machine.observe {σ : Type} (machine : Machine) (watch : σ → State → Instruction → σ)
    (state : State) (seen : σ) : σ :=
  match machine.code.fetch? state.next with
  | none => seen
  | some instr => watch seen state instr

/-- Run a program from a state, watched. -/
def Machine.runWatched {σ : Type} (machine : Machine) (watch : σ → State → Instruction → σ) :
    Nat → State → σ → Ended σ
  | 0, state, seen => ⟨none, state, seen⟩
  | fuel + 1, state, seen =>
    let noted := machine.observe watch state seen
    match machine.step state with
    | .running next => machine.runWatched watch fuel next noted
    | .finished outcome last => ⟨some outcome, last, noted⟩

/-- Run a program from a state. -/
def Machine.run (machine : Machine) (fuel : Nat) (state : State) : Ended Unit :=
  machine.runWatched (fun _ _ _ => ()) fuel state ()

/-- The state that a run on some input starts in. -/
def State.initial (input : Input) : State := { input }

/-- The status that a run ends with, faults apart. -/
def Outcome.status : Outcome → Nat
  | .completed => 0
  | .exited status => status
  | .failed fault => fault.exitCode

end Framecode.Engine
