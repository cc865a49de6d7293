import Framecode.Proofs.Engine.Failures
import Framecode.Proofs.Engine.Positions
import Framecode.Proofs.Engine.Runs

/-! What a sink can do to a run. Only WRITE has to do with the sink, and all that it learns
is whether its text is taken. A run against a sink that takes all texts is the run against
the sink that takes everything; a sink that refuses one ends the run there, with all that was
written before in place. -/
namespace Framecode.Engine

/-- The text that an instruction writes: that of the value of its argument, if it is a WRITE
and there is such a value. -/
def textOf? (state : State) (instr : Instruction) : Option String :=
  match operation? instr with
  | some (.write source) => (state.frames.valueOf source).toOption.map Value.display
  | _ => none

/-- A sink takes some texts one after the other, when it has taken others before, the latest
one of these first. -/
def Sink.Takes (sink : Sink) : List String → List String → Prop
  | _, [] => True
  | taken, text :: rest => sink.refusal taken text = none ∧ sink.Takes (text :: taken) rest

namespace Machine

/-- The machine with a sink that takes everything. -/
def freed (machine : Machine) : Machine := { machine with sink := .accepting }

/-- The texts that the WRITE instructions of a run write to a sink that takes everything, in
the order of execution. -/
def texts (machine : Machine) (fuel : Nat) (state : State) : List String :=
  machine.freed.collect (fun state instr => (textOf? state instr).toList) fuel state

end Machine

variable {machine : Machine} {state next last : State} {instr : Instruction} {outcome : Outcome}
  {text : String}

/-! ## Steps -/

/-- An instruction writes a text exactly when it is a WRITE, and the text is that of the value
of its argument. -/
theorem textOf_some_iff : textOf? state instr = some text ↔
    ∃ source value, operation? instr = some (.write source) ∧
      state.frames.valueOf source = .ok value ∧ value.display = text := by
  unfold textOf?
  split
  · rename_i source found
    cases valued : state.frames.valueOf source with
    | error cause => simp [found, valued, Except.toOption]
    | ok value => simp [found, valued, Except.toOption]
  · rename_i other
    constructor
    · intro absent
      cases absent
    · rintro ⟨source, value, found, _⟩
      exact absurd found (other source)

/-- An instruction does the same whatever the sink, if the sink takes the text that it
writes, or it writes none. -/
theorem effect_freed
    (taken : ∀ text, textOf? state instr = some text →
      machine.sink.refusal state.written text = none) :
    machine.effect state instr = machine.freed.effect state instr := by
  unfold Machine.effect
  cases found : operation? instr with
  | none => rfl
  | some operation =>
    cases operation with
    | write source =>
      simp only [Machine.plan]
      cases valued : state.frames.valueOf source with
      | error cause => rfl
      | ok value =>
        have accepted := taken _ (textOf_some_iff.mpr ⟨source, value, found, valued, rfl⟩)
        simp only [bind, Except.bind, accepted, Machine.freed, Sink.accepting]
    | _ => rfl

private theorem step_freed (fetched : machine.code.fetch? state.next = some instr)
    (taken : ∀ text, textOf? state instr = some text →
      machine.sink.refusal state.written text = none) :
    machine.step state = machine.freed.step state := by
  have found : machine.freed.code.fetch? state.next = some instr := fetched
  rw [Machine.step, Machine.step, fetched, found]
  simp only [effect_freed taken]

/-- A text that is refused ends the run at its WRITE, which changes nothing. -/
theorem step_refused {reason : String} (fetched : machine.code.fetch? state.next = some instr)
    (wrote : textOf? state instr = some text)
    (refused : machine.sink.refusal state.written text = some reason) :
    machine.step state =
      .finished (.failed ⟨instr.order, .output reason⟩) (state.fetched instr) := by
  obtain ⟨source, value, found, valued, rfl⟩ := textOf_some_iff.mp wrote
  refine step_failed_iff.mpr ⟨instr, fetched, ?_, rfl, rfl⟩
  simp only [Machine.effect, found, Machine.plan, valued, bind, Except.bind, refused]
  rfl

/-- A step adds the text that its instruction writes to what is written, and nothing else. -/
theorem written_of_running (fetched : machine.code.fetch? state.next = some instr)
    (ran : machine.step state = .running next) :
    next.written = (textOf? state instr).toList ++ state.written := by
  obtain ⟨_, operation, effect, same, found, planned, _, rfl⟩ := step_running_iff.mp ran
  cases fetched.symm.trans same
  cases planned with
  | @write source value valued accepted =>
    rw [textOf_some_iff.mpr ⟨source, value, found, valued, rfl⟩]
    rfl
  | _ => simp only [textOf?, found]; rfl

private theorem written_of_finished (ran : machine.step state = .finished outcome last) :
    last.written = state.written := by
  rcases last_of_finished ran with rfl | ⟨instr, rfl⟩ <;> rfl

/-- A WRITE of a value never ends a run if the sink takes everything. -/
theorem running_of_text (fetched : machine.code.fetch? state.next = some instr)
    (wrote : textOf? state instr = some text) :
    ∃ next, machine.freed.step state = .running next := by
  obtain ⟨source, value, found, valued, rfl⟩ := textOf_some_iff.mp wrote
  exact ⟨_, step_running_iff.mpr ⟨instr, _, _, fetched, found, .write valued rfl, nofun, rfl⟩⟩

/-! ## Runs -/

private theorem texts_running (fetched : machine.code.fetch? state.next = some instr)
    (ran : machine.freed.step state = .running next) (fuel : Nat) :
    machine.texts (fuel + 1) state = (textOf? state instr).toList ++ machine.texts fuel next :=
  collect_running fetched ran

private theorem texts_finished (ran : machine.freed.step state = .finished outcome last)
    (fuel : Nat) :
    machine.texts fuel state = [] := by
  cases fetched : machine.freed.code.fetch? state.next with
  | none => exact collect_behind fetched
  | some instr =>
    cases fuel with
    | zero => rfl
    | succ fuel =>
      rw [Machine.texts, collect_finished fetched ran]
      cases wrote : textOf? state instr with
      | none => rfl
      | some text =>
        obtain ⟨next, goes⟩ := @running_of_text machine state instr text fetched wrote
        rw [ran] at goes
        cases goes

private theorem written_suffix (machine : Machine) (state : State) (steps : Nat) :
    state.written <:+ (machine.after steps state).written := by
  induction steps generalizing state with
  | zero => exact List.suffix_rfl
  | succ steps ih =>
    cases ran : machine.step state with
    | running next =>
      obtain ⟨instr, _, _, fetched, _⟩ := step_running_iff.mp ran
      have longer : state.written <:+ next.written := by
        rw [written_of_running fetched ran]
        exact List.suffix_append _ _
      rw [after_running ran]
      exact longer.trans (ih next)
    | finished outcome last =>
      simp only [after_finished ran, written_of_finished ran, List.suffix_rfl]

/-- What is written at some time of a run is never altered, and never taken back: later texts
only come on top. -/
theorem written_kept (machine : Machine) (state : State) (steps more : Nat) :
    (machine.after steps state).written <:+ (machine.after (steps + more) state).written := by
  induction steps generalizing state with
  | zero =>
    rw [Nat.zero_add]
    exact written_suffix machine state more
  | succ steps ih =>
    rw [Nat.add_right_comm]
    cases ran : machine.step state with
    | running next =>
      rw [after_running ran, after_running ran]
      exact ih next
    | finished outcome last =>
      simp only [after_finished ran, List.suffix_rfl]

/-- Against a sink that takes everything, a run writes the texts of its WRITE instructions
and nothing else. -/
theorem written_freed (machine : Machine) (fuel : Nat) (state : State) :
    (machine.freed.run fuel state).state.written =
      (machine.texts fuel state).reverse ++ state.written := by
  induction fuel generalizing state with
  | zero => rfl
  | succ fuel ih =>
    cases ran : machine.freed.step state with
    | running next =>
      obtain ⟨instr, _, _, fetched, _⟩ := step_running_iff.mp ran
      rw [run_running ran, ih, @texts_running machine _ _ _ fetched ran, List.reverse_append,
        List.append_assoc, written_of_running fetched ran]
      cases textOf? state instr <;> rfl
    | finished outcome last =>
      rw [run_finished ran, texts_finished ran]
      exact written_of_finished ran

theorem output_of_written {texts : List String} (written : state.written = texts.reverse ++ []) :
    state.output = String.join texts := by
  rw [State.output, written, List.append_nil, List.reverse_reverse]

/-- A run against a sink that takes all its texts is the run against the sink that takes
everything. -/
theorem runWatched_freed {σ : Type} {watch : σ → State → Instruction → σ} {fuel : Nat}
    (takes : machine.sink.Takes state.written (machine.texts fuel state)) (seen : σ) :
    machine.runWatched watch fuel state seen = machine.freed.runWatched watch fuel state seen := by
  induction fuel generalizing state seen with
  | zero => rfl
  | succ fuel ih =>
    have noted : machine.observe watch state seen = machine.freed.observe watch state seen := rfl
    have same : machine.step state = machine.freed.step state := by
      cases fetched : machine.code.fetch? state.next with
      | none =>
        have ran : machine.freed.step state = .finished .completed state :=
          step_completed_iff.mpr ⟨fetched, rfl⟩
        rw [ran, step_completed_iff.mpr ⟨fetched, rfl⟩]
      | some instr =>
        refine step_freed fetched fun text wrote => ?_
        obtain ⟨next, ran⟩ := running_of_text fetched wrote
        rw [texts_running fetched ran, wrote] at takes
        exact takes.1
    cases ran : machine.freed.step state with
    | running next =>
      obtain ⟨instr, _, _, fetched, _⟩ := step_running_iff.mp ran
      rw [@texts_running machine _ _ _ fetched ran] at takes
      rw [runWatched_running (same.trans ran), runWatched_running ran, noted]
      refine ih ?_ _
      rw [written_of_running fetched ran]
      cases wrote : textOf? state instr with
      | none => rwa [wrote] at takes
      | some text =>
        rw [wrote] at takes
        exact takes.2
    | finished outcome last =>
      rw [runWatched_finished (same.trans ran), runWatched_finished ran, noted]

/-- The first step towards a text that is refused: either it is the WRITE of that text, or
the sink takes what it writes and there are the other texts before that one to come. -/
theorem towards_refusal {fuel : Nat} {taken later : List String}
    (fetched : machine.code.fetch? state.next = some instr)
    (ran : machine.freed.step state = .running next)
    (whole : machine.texts (fuel + 1) state = taken ++ text :: later)
    (takes : machine.sink.Takes state.written taken) :
    (taken = [] ∧ textOf? state instr = some text) ∨
      ∃ rest, machine.step state = .running next ∧
        machine.texts fuel next = rest ++ text :: later ∧
        machine.sink.Takes next.written rest ∧
        rest.reverse ++ next.written = taken.reverse ++ state.written := by
  have written := @written_of_running machine.freed _ _ _ fetched ran
  rw [texts_running fetched ran] at whole
  cases wrote : textOf? state instr with
  | none =>
    rw [wrote] at whole written
    have same := @step_freed machine _ _ fetched fun other wroteOther => by
      rw [wrote] at wroteOther
      cases wroteOther
    refine .inr ⟨taken, same.trans ran, whole, ?_, ?_⟩
    · rw [written]
      exact takes
    · rw [written]
      rfl
  | some first =>
    rw [wrote] at whole written
    cases taken with
    | nil =>
      cases whole
      exact .inl ⟨rfl, rfl⟩
    | cons _ rest =>
      obtain ⟨rfl, others⟩ := List.cons_eq_cons.mp whole
      have same := @step_freed machine _ _ fetched fun other wroteOther => by
        rw [wrote] at wroteOther
        cases wroteOther
        exact takes.1
      refine .inr ⟨rest, same.trans ran, others, ?_, ?_⟩
      · rw [written]
        exact takes.2
      · rw [written, List.reverse_cons, List.append_assoc]
        rfl

/-- Where a sink takes some texts of a run and refuses the next one, the run comes to the
WRITE of that text as it does against the sink that takes everything, and ends there. -/
theorem run_refused {fuel : Nat} {taken later : List String} {reason : String}
    (whole : machine.texts fuel state = taken ++ text :: later)
    (takes : machine.sink.Takes state.written taken)
    (refused : machine.sink.refusal (taken.reverse ++ state.written) text = some reason) :
    ∃ steps instr, machine.code.fetch? (machine.freed.after steps state).next = some instr ∧
      textOf? (machine.freed.after steps state) instr = some text ∧
      (machine.freed.after steps state).written = taken.reverse ++ state.written ∧
      ∀ {σ : Type} (watch : σ → State → Instruction → σ) (seen : σ) (more : Nat),
        machine.runWatched watch (steps + 1 + more) state seen =
          ⟨some (.failed ⟨instr.order, .output reason⟩),
            (machine.freed.after steps state).fetched instr,
            (machine.freed.runWatched watch (steps + 1) state seen).seen⟩ := by
  induction fuel generalizing state taken with
  | zero => exact absurd whole.symm (List.append_ne_nil_of_right_ne_nil _ (List.cons_ne_nil _ _))
  | succ fuel ih =>
    cases ran : machine.freed.step state with
    | finished outcome last =>
      rw [texts_finished ran] at whole
      exact absurd whole.symm (List.append_ne_nil_of_right_ne_nil _ (List.cons_ne_nil _ _))
    | running next =>
      obtain ⟨instr, _, _, fetched, _⟩ := step_running_iff.mp ran
      rcases @towards_refusal machine _ _ _ _ _ _ _ fetched ran whole takes with
        ⟨rfl, wrote⟩ | ⟨rest, ranToo, others, takesRest, same⟩
      · have stops := @step_refused machine _ _ _ _ fetched wrote refused
        refine ⟨0, instr, fetched, wrote, rfl, fun watch seen more => ?_⟩
        rw [Nat.zero_add, Nat.add_comm, runWatched_finished stops, runWatched_running ran]
        rfl
      · rw [← same] at refused ⊢
        obtain ⟨steps, other, found, wrote, written, runs⟩ := ih others takesRest refused
        refine ⟨steps + 1, other, ?_⟩
        rw [after_running ran]
        refine ⟨found, wrote, written, fun watch seen more => ?_⟩
        rw [Nat.add_right_comm, runWatched_running ranToo, runs, runWatched_running ran]
        rfl

/-- A sink has no influence on a run except by refusing a text. Let some texts be those that
the WRITE instructions of a run write to a sink that takes everything. Against a sink that
takes them all, the run is the same, to everybody who watches it, and they are its output. A
sink that takes some of them and refuses the next one ends the run at the WRITE of that one,
with an internal fault at its order: until then the run was the same, it leaves the frames and
the stacks as they were before that WRITE, and its output are the texts that were taken. In
any case, what was written at some time stays written, whatever the run comes to. -/
theorem sink_only_refuses (machine : Machine) (input : Input) (fuel : Nat) :
    (machine.sink.Takes [] (machine.texts fuel (.initial input)) →
      (∀ {σ : Type} (watch : σ → State → Instruction → σ) (seen : σ),
        machine.runWatched watch fuel (.initial input) seen =
          machine.freed.runWatched watch fuel (.initial input) seen) ∧
      (machine.run fuel (.initial input)).state.output =
        String.join (machine.texts fuel (.initial input))) ∧
    (∀ taken text later reason, machine.texts fuel (.initial input) = taken ++ text :: later →
      machine.sink.Takes [] taken → machine.sink.refusal taken.reverse text = some reason →
      ∃ steps instr source value,
        machine.code.fetch? (machine.freed.after steps (.initial input)).next = some instr ∧
        instr.opcode = .write ∧ instr.args = [source] ∧
        (machine.freed.after steps (.initial input)).frames.valueOf source = .ok value ∧
        value.display = text ∧
        (Cause.output reason).kind = .internal ∧
        Fault.exitCode ⟨instr.order, .output reason⟩ = 99 ∧
        ∀ {σ : Type} (watch : σ → State → Instruction → σ) (seen : σ) (more : Nat),
          let ended := machine.runWatched watch (steps + 1 + more) (.initial input) seen
          ended.outcome = some (.failed ⟨instr.order, .output reason⟩) ∧
          Untouched (machine.freed.after steps (.initial input)) instr ended.state ∧
          ended.state.output = String.join taken ∧
          ended.seen = (machine.freed.runWatched watch (steps + 1) (.initial input) seen).seen) ∧
    ∀ steps more, (machine.after steps (.initial input)).written <:+
      (machine.after (steps + more) (.initial input)).written := by
  refine ⟨fun takes => ?_, fun taken text later reason whole takes refused => ?_,
    written_kept machine (.initial input)⟩
  · have runs : ∀ {σ : Type} (watch : σ → State → Instruction → σ) (seen : σ),
        machine.runWatched watch fuel (.initial input) seen =
          machine.freed.runWatched watch fuel (.initial input) seen :=
      fun _ seen => runWatched_freed takes seen
    refine ⟨runs, output_of_written ?_⟩
    rw [Machine.run, runs]
    exact written_freed machine fuel (.initial input)
  · have onTop : machine.sink.refusal (taken.reverse ++ []) text = some reason := by
      rw [List.append_nil, refused]
    obtain ⟨steps, instr, fetched, wrote, written, runs⟩ :=
      @run_refused machine (.initial input) text fuel taken later reason whole takes onTop
    obtain ⟨source, value, found, valued, shown⟩ := textOf_some_iff.mp wrote
    obtain ⟨writes, args⟩ := origin_of_operation found rfl
    refine ⟨steps, instr, source, value, fetched, writes, args, valued, shown, rfl, rfl, ?_⟩
    intro σ watch seen more ended
    have ends : ended = _ := runs watch seen more
    rw [ends]
    exact ⟨rfl, fetched_untouched _ _, output_of_written written, rfl⟩

/-- A program that writes three texts, one of them empty, and then returns without a call. -/
def chatty : Program :=
  ⟨[⟨1, .write, [⟨.literal .int, "0x10"⟩]⟩, ⟨2, .write, [⟨.literal .nil, "nil"⟩]⟩,
    ⟨3, .pushs, [⟨.literal .bool, "true"⟩]⟩, ⟨7, .write, [⟨.literal .string, "\\097b"⟩]⟩,
    ⟨8, .ret, []⟩]⟩

/-- The machine that runs it, with a sink for three bytes. -/
def chattyMachine : Machine := ⟨⟨chatty.instructions, {}⟩, .limited 3 "full"⟩

theorem third_write_is_refused :
    Code.load chatty = .ok chattyMachine.code ∧
    chattyMachine.texts 9 (.initial {}) = ["16", "", "ab"] ∧
    chattyMachine.sink.Takes [] ["16", ""] ∧
    chattyMachine.sink.refusal ["", "16"] "ab" = some "full" ∧
    ∃ (steps : Nat) (instr : Instruction), instr.opcode = .write ∧ ∀ more,
      (chattyMachine.run (steps + 1 + more) (.initial {})).outcome =
        some (.failed ⟨instr.order, .output "full"⟩) ∧
      (chattyMachine.run (steps + 1 + more) (.initial {})).state.output = "16" := by
  have loaded : Code.load chatty = .ok chattyMachine.code := load_of_listed rfl rfl rfl
  have texts : chattyMachine.texts 9 (.initial {}) = ["16", "", "ab"] := by decide +kernel
  have takes : chattyMachine.sink.Takes [] ["16", ""] := by
    refine ⟨?_, ?_, trivial⟩ <;> decide +kernel
  have refused : chattyMachine.sink.refusal ["", "16"] "ab" = some "full" := by decide +kernel
  obtain ⟨_, refusal, _⟩ := sink_only_refuses chattyMachine {} 9
  obtain ⟨steps, instr, source, value, _, writes, _, _, _, _, _, ends⟩ :=
    refusal ["16", ""] "ab" [] "full" texts takes refused
  refine ⟨loaded, texts, takes, refused, steps, instr, writes, fun more => ?_⟩
  obtain ⟨outcome, _, output, _⟩ := ends (fun _ _ _ => ()) () more
  exact ⟨outcome, output⟩

end Framecode.Engine
