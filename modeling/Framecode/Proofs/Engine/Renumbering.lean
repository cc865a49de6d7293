import Framecode.Engine.Journal
import Framecode.Interchange.Write
import Framecode.Proofs.Sorting
import Framecode.Source.Listing

/-! The orders of a program matter only as an order. Where no order stands twice, the
place of an instruction in the list decides nothing. Other numbers that are in the same
order give the same program too: loading, every step and every journal commute with a
renumbering, since a step looks at positions and at what an instruction says, and reports
its order without ever computing with it. -/
namespace Framecode

/-- An instruction with another order. -/
def Instruction.renumber (change : UInt32 → UInt32) (instr : Instruction) : Instruction :=
  { instr with order := change instr.order }

/-- A program with other orders. -/
def Program.renumber (change : UInt32 → UInt32) (program : Program) : Program :=
  ⟨program.instructions.map (·.renumber change)⟩

/-- Other orders for a program that are increasing where its own are. An order of zero,
which no program may have, stays zero, and no other order becomes it. -/
structure KeepsOrder (program : Program) (change : UInt32 → UInt32) : Prop where
  increasing : ∀ left ∈ program.instructions, ∀ right ∈ program.instructions,
    left.order < right.order → change left.order < change right.order
  positive : ∀ instr ∈ program.instructions, 1 ≤ instr.order → 1 ≤ change instr.order
  zero : (∃ instr ∈ program.instructions, instr.order = 0) → change 0 = 0

namespace KeepsOrder

variable {program : Program} {change : UInt32 → UInt32}

/-- The new orders compare as the old ones do. -/
theorem le_iff (keeps : KeepsOrder program change) {left right : Instruction}
    (leftMember : left ∈ program.instructions) (rightMember : right ∈ program.instructions) :
    change left.order ≤ change right.order ↔ left.order ≤ right.order := by
  constructor
  · intro below
    by_contra above
    have less := keeps.increasing right rightMember left leftMember (UInt32.not_le.mp above)
    exact UInt32.not_le.mpr less below
  · intro below
    rcases UInt32.lt_or_eq_of_le below with less | same
    · exact UInt32.le_of_lt (keeps.increasing left leftMember right rightMember less)
    · rw [same]
      exact UInt32.le_refl _

/-- An order becomes zero only if it was zero. -/
theorem le_zero_iff (keeps : KeepsOrder program change) {instr : Instruction}
    (member : instr ∈ program.instructions) : change instr.order ≤ 0 ↔ instr.order ≤ 0 := by
  by_cases zero : instr.order = 0
  · rw [zero, keeps.zero ⟨instr, member, zero⟩]
  · have positive : 1 ≤ instr.order := by grind
    have changed := keeps.positive instr member positive
    exact iff_of_false (UInt32.not_le.mpr changed) (mt UInt32.le_zero_iff.mp zero)

/-- Distinct orders stay distinct. -/
theorem nodup (keeps : KeepsOrder program change)
    (distinct : (program.instructions.map (·.order)).Nodup) :
    ((program.renumber change).instructions.map (·.order)).Nodup := by
  have renumbered : (program.renumber change).instructions.map (·.order) =
      program.instructions.map fun instr => change instr.order := by
    simp [Program.renumber, Instruction.renumber]
  rw [renumbered]
  refine List.Nodup.map_on ?_ distinct.of_map
  intro left leftMember right rightMember same
  have below := (keeps.le_iff leftMember rightMember).mp (UInt32.le_of_eq same)
  have above := (keeps.le_iff rightMember leftMember).mp (UInt32.le_of_eq same.symm)
  exact List.inj_on_of_nodup_map distinct leftMember rightMember (UInt32.le_antisymm below above)

/-- The order of execution stays the same. -/
theorem sorted (keeps : KeepsOrder program change)
    (distinct : (program.instructions.map (·.order)).Nodup) :
    (program.renumber change).sorted = program.sorted.map (·.renumber change) := by
  refine sorted_unique (keeps.nodup distinct) ((sorted_perm program).map _) ?_
  refine List.pairwise_map.mpr ((sorted_ordered program).imp_of_mem ?_)
  intro left right leftMember rightMember below
  rw [(sorted_perm program).mem_iff] at leftMember rightMember
  exact (keeps.le_iff leftMember rightMember).mpr below

end KeepsOrder

namespace Engine

variable {change : UInt32 → UInt32}

/-! ## Reports with other orders -/

/-- A fault at another order. -/
def Fault.renumber (change : UInt32 → UInt32) (fault : Fault) : Fault :=
  { fault with order := change fault.order }

/-- Loaded instructions with other orders. -/
def Code.renumber (change : UInt32 → UInt32) (code : Code) : Code :=
  { code with instructions := code.instructions.map (·.renumber change) }

/-- A machine whose program has other orders. -/
def Machine.renumber (change : UInt32 → UInt32) (machine : Machine) : Machine :=
  { machine with code := machine.code.renumber change }

/-- The end of a run, with the order of its fault changed. -/
def Outcome.renumber (change : UInt32 → UInt32) : Outcome → Outcome
  | .failed fault => .failed (fault.renumber change)
  | other => other

/-- A step, with the order of its fault changed. -/
def Progress.renumber (change : UInt32 → UInt32) : Progress → Progress
  | .running state => .running state
  | .finished outcome state => .finished (outcome.renumber change) state

/-- What is logged, with other orders. -/
def Event.renumber (change : UInt32 → UInt32) : Event → Event
  | .dprint order shown => .dprint (change order) shown
  | .breakpoint order snapshot => .breakpoint (change order) snapshot
  | .failed fault => .failed (fault.renumber change)
  | other => other

/-- A journal with other orders. -/
def Journal.renumber (change : UInt32 → UInt32) (journal : Journal) : Journal where
  steps := journal.steps
  trace := journal.trace.map (·.renumber change)
  events := journal.events.map (·.renumber change)

/-- The end of a run with other orders, and with what its watcher makes of them. -/
def Ended.renumber {σ : Type} (change : UInt32 → UInt32) (translate : σ → σ) (ended : Ended σ) :
    Ended σ where
  outcome := ended.outcome.map (·.renumber change)
  state := ended.state
  seen := translate ended.seen

/-! ## Loading -/

/-- Instructions pass the check of a loader as they do with other orders, as long as the
same comparisons hold. -/
theorem check_renumber {instructions : List Instruction} {last bound : UInt32}
    (first : ∀ instr ∈ instructions, change instr.order ≤ bound ↔ instr.order ≤ last)
    (others : ∀ left ∈ instructions, ∀ right ∈ instructions,
      change left.order ≤ change right.order ↔ left.order ≤ right.order) :
    Code.check bound (instructions.map (·.renumber change)) =
      (Code.check last instructions).mapError (·.renumber change) := by
  induction instructions generalizing last bound with
  | nil => rfl
  | cons instr rest ih =>
    have later := @ih instr.order (change instr.order)
      (fun other member =>
        others other (List.mem_cons_of_mem _ member) instr List.mem_cons_self)
      (fun left leftMember right rightMember =>
        others left (List.mem_cons_of_mem _ leftMember) right (List.mem_cons_of_mem _ rightMember))
    rw [List.map_cons, Code.check, Code.check]
    by_cases refused : instr.order ≤ last
    · have changed : (instr.renumber change).order ≤ bound :=
        (first instr List.mem_cons_self).mpr refused
      rw [if_pos refused, if_pos changed]
      rfl
    · have changed : ¬ (instr.renumber change).order ≤ bound :=
        fun below => refused ((first instr List.mem_cons_self).mp below)
      rw [if_neg refused, if_neg changed]
      by_cases formed : instr.isWellFormed = true
      · have same : (instr.renumber change).isWellFormed = true := formed
        rw [if_pos formed, if_pos same]
        exact later
      · have same : ¬ (instr.renumber change).isWellFormed = true := formed
        rw [if_neg formed, if_neg same]
        rfl

namespace LabelTable

private theorem add_renumber (table : LabelTable) (position : Nat) (instr : Instruction) :
    table.add position (instr.renumber change) =
      (table.add position instr).mapError (·.renumber change) := by
  unfold add Instruction.renumber
  by_cases labelled : instr.opcode = .label
  · rw [if_pos labelled, if_pos labelled]
    cases instr.args with
    | nil => rfl
    | cons arg rest =>
      dsimp only
      split <;> rfl
  · rw [if_neg labelled, if_neg labelled]
    rfl

private theorem addAll_renumber (table : LabelTable) (start : Nat)
    (instructions : List Instruction) :
    table.addAll start (instructions.map (·.renumber change)) =
      (table.addAll start instructions).mapError (·.renumber change) := by
  induction instructions generalizing table start with
  | nil => rfl
  | cons instr rest ih =>
    rw [List.map_cons, addAll, addAll, add_renumber]
    cases table.add start instr with
    | error fault => rfl
    | ok next => exact ih next (start + 1)

end LabelTable

/-- A program with other orders loads as it does with its own, and a fault is reported at
the other order. -/
theorem load_renumber {program : Program} (keeps : KeepsOrder program change)
    (distinct : (program.instructions.map (·.order)).Nodup) :
    Code.load (program.renumber change) =
      ((Code.load program).map (·.renumber change)).mapError (·.renumber change) := by
  have members : ∀ instr ∈ program.sorted, instr ∈ program.instructions :=
    fun instr => (sorted_perm program).mem_iff.mp
  have checked := @check_renumber change program.sorted 0 0
    (fun instr member => keeps.le_zero_iff (members instr member))
    (fun left leftMember right rightMember =>
      keeps.le_iff (members left leftMember) (members right rightMember))
  have built := @LabelTable.addAll_renumber change {} 1 program.sorted
  simp only [Code.load, keeps.sorted distinct, checked, LabelTable.ofInstructions, built]
  cases Code.check 0 program.sorted with
  | error fault => rfl
  | ok done =>
    cases LabelTable.addAll {} 1 program.sorted <;> rfl

/-! ## Steps and runs -/

private theorem renumber_code (machine : Machine) :
    (machine.renumber change).code = machine.code.renumber change := rfl

private theorem fetch_renumber (code : Code) (position : Nat) :
    (code.renumber change).fetch? position = (code.fetch? position).map (·.renumber change) := by
  unfold Code.fetch? Code.renumber
  split
  · rfl
  · rw [List.getElem?_map]

/-- An instruction has the effect that it has, whatever its order and the other ones. -/
theorem effect_renumber (machine : Machine) (state : State) (instr : Instruction) :
    (machine.renumber change).effect state (instr.renumber change) =
      machine.effect state instr := by
  have same : operation? (instr.renumber change) = operation? instr := rfl
  unfold Machine.effect
  rw [same]
  cases operation? instr with
  | none => rfl
  | some operation => cases operation <;> rfl

/-- A step reports a fault at the other order, and leads to the same state. -/
theorem step_renumber (machine : Machine) (state : State) :
    (machine.renumber change).step state = (machine.step state).renumber change := by
  unfold Machine.step
  rw [renumber_code, fetch_renumber]
  cases machine.code.fetch? state.next with
  | none => rfl
  | some instr =>
    simp only [Option.map_some, effect_renumber]
    cases machine.effect state instr with
    | error cause => rfl
    | ok effect => cases effect <;> rfl

/-- A watcher that sees the other orders. -/
theorem observe_renumber {σ : Type} (machine : Machine) {watch : σ → State → Instruction → σ}
    {translate : σ → σ}
    (watches : ∀ seen state instr, translate (watch seen state instr) =
      watch (translate seen) state (instr.renumber change))
    (state : State) (seen : σ) :
    (machine.renumber change).observe watch state (translate seen) =
      translate (machine.observe watch state seen) := by
  unfold Machine.observe
  rw [renumber_code, fetch_renumber]
  cases machine.code.fetch? state.next with
  | none => rfl
  | some instr => exact (watches seen state instr).symm

/-- A run commutes with a renumbering if its watcher does. -/
theorem runWatched_renumber {σ : Type} (machine : Machine) {watch : σ → State → Instruction → σ}
    {translate : σ → σ}
    (watches : ∀ seen state instr, translate (watch seen state instr) =
      watch (translate seen) state (instr.renumber change))
    (fuel : Nat) (state : State) (seen : σ) :
    (machine.renumber change).runWatched watch fuel state (translate seen) =
      (machine.runWatched watch fuel state seen).renumber change translate := by
  induction fuel generalizing state seen with
  | zero => rfl
  | succ fuel ih =>
    rw [Machine.runWatched, Machine.runWatched, step_renumber, observe_renumber machine watches]
    cases machine.step state with
    | running next => exact ih next (machine.observe watch state seen)
    | finished outcome last => rfl

/-! ## Journals -/

private theorem eventOf_renumber (state : State) (instr : Instruction) :
    eventOf? state (instr.renumber change) = (eventOf? state instr).map (·.renumber change) := by
  have same : operation? (instr.renumber change) = operation? instr := rfl
  unfold eventOf?
  rw [same]
  cases operation? instr with
  | none => rfl
  | some operation => cases operation <;> rfl

/-- A journal notes an instruction under its other order. -/
theorem note_renumber (limit : Nat) (journal : Journal) (state : State) (instr : Instruction) :
    (Journal.note limit journal state instr).renumber change =
      Journal.note limit (journal.renumber change) state (instr.renumber change) := by
  have events : ((eventOf? state instr).toList ++ journal.events).map (·.renumber change) =
      (eventOf? state (instr.renumber change)).toList ++ (journal.renumber change).events := by
    rw [eventOf_renumber, List.map_append, Option.toList_map]
    rfl
  have trace : (if journal.steps < limit then instr :: journal.trace else journal.trace).map
      (·.renumber change) = if journal.steps < limit then
        instr.renumber change :: (journal.renumber change).trace
        else (journal.renumber change).trace := by
    split <;> rfl
  exact (Journal.mk.injEq ..).mpr ⟨rfl, trace, events⟩

/-- The whole journal of a run has the other orders, and nothing else is different. -/
theorem runJournaled_renumber (machine : Machine) (limit fuel : Nat) (input : Input) :
    (machine.renumber change).runJournaled limit fuel input =
      (machine.runJournaled limit fuel input).renumber change (·.renumber change) := by
  have loading : (machine.code.renumber change).event = machine.code.event := by
    simp [Code.event, Code.renumber, Code.size]
  have runs := runWatched_renumber machine (@note_renumber change limit) fuel (.initial input)
    { events := [machine.code.event] }
  have starts : (Journal.mk 0 [] [machine.code.event]).renumber change =
      { events := [machine.code.event] } := rfl
  rw [starts] at runs
  simp only [Machine.runJournaled, renumber_code, loading, runs]
  obtain ⟨outcome, last, journal⟩ := machine.runWatched (Journal.note limit) fuel (.initial input)
    { events := [machine.code.event] }
  -- The closing event is that of the outcome, and only a fault has an order to change.
  cases outcome with
  | none => rfl
  | some outcome => cases outcome <;> rfl

/-- Load a program and run it, with a journal. -/
def journaled (program : Program) (sink : Sink) (limit fuel : Nat) (input : Input) :
    Except Fault (Ended Journal) :=
  (Code.load program).map fun code => Machine.runJournaled ⟨code, sink⟩ limit fuel input

/-- Only the relative order of instructions matters. Where no order stands twice, a
permutation of the list changes neither the listing nor the document of a program, nor
how it loads and runs. Orders that increase where the old ones do change nothing either,
except that the faults, the trace and the events report them in place of the old ones. -/
theorem relative_order_decides {program : Program}
    (distinct : (program.instructions.map (·.order)).Nodup) :
    (∀ other : Program, other.instructions.Perm program.instructions →
      Source.listing other = Source.listing program ∧
      Interchange.write other = Interchange.write program ∧
      Code.load other = Code.load program ∧
      ∀ sink limit fuel input,
        journaled other sink limit fuel input = journaled program sink limit fuel input) ∧
    ∀ change, KeepsOrder program change →
      Code.load (program.renumber change) =
        ((Code.load program).map (·.renumber change)).mapError (·.renumber change) ∧
      ∀ sink limit fuel input,
        journaled (program.renumber change) sink limit fuel input =
          ((journaled program sink limit fuel input).map
            (·.renumber change (·.renumber change))).mapError (·.renumber change) := by
  constructor
  · intro other permuted
    have sorted : program.sorted = other.sorted :=
      sorted_unique distinct ((sorted_perm other).trans permuted) (sorted_ordered other)
    have loads : Code.load other = Code.load program := by
      unfold Code.load
      rw [sorted]
    refine ⟨?_, ?_, loads, ?_⟩
    · unfold Source.listing
      rw [sorted]
    · unfold Interchange.write
      rw [sorted]
    · intro sink limit fuel input
      unfold journaled
      rw [loads]
  · intro change keeps
    have loads := load_renumber keeps distinct
    refine ⟨loads, ?_⟩
    intro sink limit fuel input
    cases loading : Code.load program with
    | error fault => simp only [journaled, loads, loading, Except.map, Except.mapError]
    | ok code =>
      have runs := @runJournaled_renumber change ⟨code, sink⟩ limit fuel input
      simp only [journaled, loads, loading, Except.map, Except.mapError, ← runs]
      rfl

/-- A program that is not listed in the order of execution. -/
def unlisted : Program :=
  ⟨[⟨5, .pops, [⟨.var, "GF@x"⟩]⟩, ⟨2, .dprint, [⟨.literal .int, "1"⟩]⟩]⟩

theorem unlisted_orders_times_ten :
    (unlisted.instructions.map (·.order)).Nodup ∧
    Code.load ⟨unlisted.instructions.reverse⟩ = Code.load unlisted ∧
    KeepsOrder unlisted (10 * ·) ∧
    (journaled (unlisted.renumber (10 * ·)) .accepting 9 9 {}).map (·.outcome) =
      .ok (some (.failed ⟨50, .undefinedVariable ⟨.globalFrame, "x"⟩⟩)) := by
  have distinct : (unlisted.instructions.map (·.order)).Nodup := by decide
  have keeps : KeepsOrder unlisted (10 * ·) := ⟨by decide, by decide, by decide⟩
  obtain ⟨permutations, renumberings⟩ := relative_order_decides distinct
  obtain ⟨_, _, loads, _⟩ := permutations ⟨unlisted.instructions.reverse⟩ (List.reverse_perm _)
  have sorted : unlisted.sorted = unlisted.instructions.reverse :=
    sorted_unique distinct (List.reverse_perm _) (by unfold Ordered; decide)
  have loaded : Code.load unlisted = .ok ⟨unlisted.instructions.reverse, {}⟩ := by
    rw [Code.load, sorted]
    rfl
  refine ⟨distinct, loads, keeps, ?_⟩
  rw [(renumberings _ keeps).2, journaled, loaded]
  rfl

end Engine

end Framecode
