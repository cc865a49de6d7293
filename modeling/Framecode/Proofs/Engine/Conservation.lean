import Framecode.Proofs.Engine.Agreement
import Framecode.Proofs.Engine.Scopes
import Framecode.Proofs.Engine.Variables
import Mathlib.Data.List.Nodup

/-! Frames over any sequence of operations, some of which may fail. Frames are numbered as they are
created, so that a frame is the same one wherever it is moved, whatever is written to it. No frame
is ever in two places, and the only one that can be lost is a temporary one. -/
namespace Framecode.Engine

/-! ## Operations in place -/

/-- What can be asked of the frames. -/
inductive FrameOp where
  | create
  | push
  | pop
  | declare (var : VarRef)
  | assign (var : VarRef) (slot : Slot)
  deriving DecidableEq, Repr

namespace FrameOp

/-- Do it to the frames of a machine, in place. -/
def handler : FrameOp → Handler Unit
  | .create => modify fun registers => { registers with frames := registers.frames.create }
  | .push => Handler.pushTemporary
  | .pop => Handler.popLocal
  | .declare var => Handler.declare var
  | .assign var slot => do
    let _ ← Handler.look (·.frames.contents var)
    modify fun registers => { registers with frames := registers.frames.setSlot var slot }

/-- The frames after an operation. -/
def apply (frames : Frames) : FrameOp → Except Cause Frames
  | .create => .ok frames.create
  | .push => frames.push
  | .pop => frames.pop
  | .declare var => frames.declare var
  | .assign var slot => frames.assign var slot

/-- What an operation does not succeed without. -/
def Possible (frames : Frames) : FrameOp → Prop
  | .create => True
  | .push => frames.temporary.isSome
  | .pop => 0 < frames.depth
  | .declare var => ∃ frame, frames.frame? var.frame = some frame ∧ frame.slot? var.name = none
  | .assign var _ => ∃ frame, frames.frame? var.frame = some frame ∧ (frame.slot? var.name).isSome

/-- Whether an operation creates or moves a frame. -/
def moves : FrameOp → Bool
  | .create | .push | .pop => true
  | .declare _ | .assign _ _ => false

/-- How an operation changes the frame of a role. -/
def write? : FrameOp → Option (FrameRole × (Frame → Frame))
  | .create | .push | .pop => none
  | .declare var => some (var.frame, (·.declare var.name))
  | .assign var slot => some (var.frame, (·.assign var.name slot))

variable {frames after : Frames} {op : FrameOp} {role : FrameRole} {change : Frame → Frame}

/-- An operation that fails leaves everything as it was, whatever it has done by then. -/
theorem handler_run (op : FrameOp) (registers : Registers) :
    op.handler registers = match op.apply registers.frames with
      | .ok frames => .ok () { registers with frames }
      | .error cause => .error (.fault ⟨registers.current, cause⟩) registers := by
  cases op with
  | create => rfl
  | push => exact Handler.pushTemporary_run registers
  | pop => exact Handler.popLocal_run registers
  | declare var =>
    rw [handler, Handler.declare_run, apply, Frames.declare]
    cases registers.frames.checkFresh var <;> rfl
  | assign var slot =>
    rw [handler, Handler.bind_run, Handler.look_run, apply, Frames.assign]
    cases registers.frames.contents var <;> rfl

private theorem possible_iff : op.Possible frames ↔ ∃ after, op.apply frames = .ok after := by
  cases op with
  | create => exact iff_of_true trivial ⟨_, rfl⟩
  | push => simp [Possible, apply, push_ok_iff, Option.isSome_iff_exists]
  | pop =>
    obtain ⟨globals, ⟨items⟩, temporary⟩ := frames
    cases items with
    | nil => exact iff_of_false (Nat.lt_irrefl 0) nofun
    | cons top rest => exact iff_of_true (Nat.succ_pos _) ⟨_, rfl⟩
  | declare var =>
    simp only [Possible, apply, Frames.declare, ← Frames.checkFresh_ok_iff]
    cases frames.checkFresh var <;> simp [bind, Except.bind, pure, Except.pure]
  | assign var slot =>
    simp only [Possible, apply, Frames.assign, bind_ok_iff, Frames.contents_ok_iff,
      Option.isSome_iff_exists]
    constructor
    · rintro ⟨frame, found, old, held⟩
      exact ⟨_, old, ⟨frame, found, held⟩, rfl⟩
    · rintro ⟨_, old, ⟨frame, found, held⟩, _⟩
      exact ⟨frame, found, old, held⟩

/-- An operation that writes to a frame finds that frame, and changes nothing else. -/
theorem apply_write (writes : op.write? = some (role, change))
    (done : op.apply frames = .ok after) :
    (∃ frame, frames.frame? role = some frame) ∧ after = frames.modify role change := by
  cases op with
  | create | push | pop => cases writes
  | declare var =>
    cases writes
    obtain ⟨_, fresh, same⟩ := bind_ok_iff.mp done
    obtain ⟨frame, found, -⟩ := Frames.checkFresh_ok_iff.mp fresh
    exact ⟨⟨frame, found⟩, (Except.ok.inj same).symm⟩
  | assign var slot =>
    cases writes
    obtain ⟨_, held, same⟩ := bind_ok_iff.mp done
    obtain ⟨frame, found, -⟩ := Frames.contents_ok_iff.mp held
    exact ⟨⟨frame, found⟩, (Except.ok.inj same).symm⟩

end FrameOp

/-- The registers of a machine, and the operations that have succeeded, the latest one first. -/
structure Session where
  registers : Registers
  done : List FrameOp := []

namespace Session

/-- A session without any frame but an empty global one. -/
def start (registers : Registers) : Session := { registers := { registers with frames := {} } }

/-- The frames at the end of a session. -/
def frames (session : Session) : Frames := session.registers.frames

/-- Try an operation, and go on if it fails. -/
def attempt (session : Session) (op : FrameOp) : Session :=
  match op.handler session.registers with
  | .ok _ registers => ⟨registers, op :: session.done⟩
  | .error _ registers => ⟨registers, session.done⟩

/-- Try operations one after another. -/
def attemptAll (session : Session) (ops : List FrameOp) : Session := ops.foldl attempt session

variable {session : Session} {op : FrameOp} {left : Frames} {cause : Cause}

private theorem attempt_of_ok (done : op.apply session.frames = .ok left) :
    session.attempt op = ⟨{ session.registers with frames := left }, op :: session.done⟩ := by
  rw [attempt, FrameOp.handler_run, ← frames, done]

private theorem attempt_of_error (failed : op.apply session.frames = .error cause) :
    session.attempt op = session := by
  rw [attempt, FrameOp.handler_run, ← frames, failed]

end Session

/-! ## Frames by number -/

/-- How many frames have been created, and which of them are there: the temporary one, and those
of the stack from its top. -/
structure Census where
  made : Nat := 0
  pending : Option Nat := none
  stacked : List Nat := []
  deriving DecidableEq, Repr

/-- A frame: the global one, or one that has been created, by its number. -/
inductive FrameId where
  | globals
  | created (number : Nat)
  deriving DecidableEq, Repr

namespace Census

/-- The census after an operation that has succeeded. -/
def after (census : Census) : FrameOp → Census
  | .create => { census with made := census.made + 1, pending := some census.made }
  | .push => { census with pending := none, stacked := census.pending.toList ++ census.stacked }
  | .pop => { census with pending := census.stacked.head?, stacked := census.stacked.tail }
  | .declare _ | .assign _ _ => census

/-- The census after all operations that have succeeded, the latest one first. -/
def of : List FrameOp → Census
  | [] => {}
  | op :: earlier => (of earlier).after op

/-- The frames that are there. -/
def held (census : Census) : List Nat := census.pending.toList ++ census.stacked

/-- The frame that a role names. -/
def named? (census : Census) : FrameRole → Option FrameId
  | .globalFrame => some .globals
  | .localFrame => census.stacked.head?.map .created
  | .temporaryFrame => census.pending.map .created

/-- Frames with given contents, where the census has them. -/
def fill (census : Census) (holds : FrameId → Frame) : Frames where
  globals := holds .globals
  locals := ⟨census.stacked.map fun number => holds (.created number)⟩
  temporary := census.pending.map fun number => holds (.created number)

end Census

/-- What has been written to a frame: every write to whatever role it had at that time, and nothing
else. -/
def written (id : FrameId) : List FrameOp → Frame
  | [] => {}
  | op :: earlier =>
    match op.write? with
    | none => written id earlier
    | some (role, change) =>
      if (Census.of earlier).named? role = some id then change (written id earlier)
      else written id earlier

/-- The frames that are there, each with what has been written to it. -/
def picture (done : List FrameOp) : Frames := (Census.of done).fill fun id => written id done

/-- Operations that were possible one after another, the latest one first. -/
def Lawful : List FrameOp → Prop
  | [] => True
  | op :: earlier => Lawful earlier ∧ op.Possible (picture earlier)

section

variable {done earlier : List FrameOp} {op : FrameOp} {role : FrameRole} {change : Frame → Frame}
  {number : Nat} {id : FrameId}

private theorem push_possible_iff :
    FrameOp.Possible (picture done) .push ↔ ∃ number, (Census.of done).pending = some number := by
  simp [FrameOp.Possible, picture, Census.fill, Option.isSome_iff_exists]

private theorem pop_possible_iff :
    FrameOp.Possible (picture done) .pop ↔
      ∃ number below, (Census.of done).stacked = number :: below := by
  simp [FrameOp.Possible, picture, Census.fill, Frames.depth, Stack.size,
    List.length_pos_iff_exists_cons]

/-- Frames have numbers that have been given out, and no frame is in two places. -/
structure Census.Distinct (census : Census) : Prop where
  below : ∀ number ∈ census.held, number < census.made
  nodup : census.held.Nodup

private theorem Census.Distinct.of_sublist {census other : Census} (distinct : census.Distinct)
    (made : other.made = census.made) (fewer : other.held.Sublist census.held) :
    other.Distinct := by
  refine ⟨fun number held => ?_, distinct.nodup.sublist fewer⟩
  rw [made]
  exact distinct.below number (fewer.subset held)

/-- A pop moves a frame, and leaves nothing of an old temporary one. -/
theorem held_pop (census : Census) : (census.after .pop).held = census.stacked := by
  simp only [Census.held, Census.after]
  cases census.stacked <;> rfl

private theorem distinct_after {census : Census} (distinct : census.Distinct) (op : FrameOp) :
    (census.after op).Distinct := by
  cases op with
  | create =>
    have stacked : ∀ number ∈ census.stacked, number < census.made := fun number held =>
      distinct.below number (List.mem_append_right _ held)
    constructor
    · intro number held
      rcases List.mem_cons.mp held with rfl | below
      · exact Nat.lt_succ_self _
      · exact Nat.lt_succ_of_lt (stacked number below)
    · have unused : census.made ∉ census.stacked := fun held => Nat.lt_irrefl _ (stacked _ held)
      exact .cons unused distinct.nodup.of_append_right
  | push => exact distinct.of_sublist rfl (List.Sublist.refl _)
  | pop =>
    refine distinct.of_sublist rfl ?_
    rw [held_pop]
    exact List.sublist_append_right _ _
  | declare var => exact distinct
  | assign var slot => exact distinct

private theorem distinct_of (done : List FrameOp) : (Census.of done).Distinct := by
  induction done with
  | nil => exact ⟨nofun, .nil⟩
  | cons op earlier ih => exact distinct_after ih op

private theorem held_of_named {census : Census}
    (named : census.named? role = some (.created number)) :
    number ∈ census.held := by
  cases role with
  | globalFrame => cases named
  | localFrame =>
    obtain ⟨_, top, same⟩ := Option.map_eq_some_iff.mp named
    cases same
    exact List.mem_append_right _ (List.mem_of_head? top)
  | temporaryFrame =>
    obtain ⟨_, pending, same⟩ := Option.map_eq_some_iff.mp named
    cases same
    exact List.mem_append_left _ (Option.mem_toList.mpr pending)

private theorem made_le_after (census : Census) (op : FrameOp) :
    census.made ≤ (census.after op).made := by
  cases op with
  | create => exact Nat.le_succ _
  | push | pop | declare | assign => exact Nat.le_refl _

/-- Nothing has been written to a frame that is still to be created. -/
theorem written_of_unmade (unmade : (Census.of done).made ≤ number) :
    written (.created number) done = {} := by
  induction done with
  | nil => rfl
  | cons op earlier ih =>
    have unmadeBefore := Nat.le_trans (made_le_after (Census.of earlier) op) unmade
    rw [written, ih unmadeBefore]
    cases op.write? with
    | none => rfl
    | some write =>
      refine if_neg fun named => ?_
      have made := (distinct_of earlier).below number (held_of_named named)
      omega

private theorem frame_fill (census : Census) (holds : FrameId → Frame) (role : FrameRole) :
    (census.fill holds).frame? role = (census.named? role).map holds := by
  cases role with
  | globalFrame => rfl
  | localFrame => simp [Census.fill, Census.named?, Frames.frame?, Stack.top?, Function.comp_def]
  | temporaryFrame => simp [Census.fill, Census.named?, Frames.frame?, Function.comp_def]

/-- A change of the frame that a role names changes no other: none has the same number. -/
theorem fill_update {census : Census} (distinct : census.Distinct)
    (named : census.named? role = some id) (holds : FrameId → Frame) :
    census.fill (Function.update holds id (change (holds id))) =
      (census.fill holds).modify role change := by
  have nodup := distinct.nodup
  have others {number other : Nat} (apart : other ≠ number) (changed : Frame) :
      Function.update holds (.created number) changed (.created other) = holds (.created other) :=
    Function.update_of_ne (fun same => apart (FrameId.created.inj same)) _ _
  obtain ⟨made, pending, stacked⟩ := census
  cases role with
  | globalFrame =>
    cases named
    simp [Census.fill, Frames.modify]
  | localFrame =>
    cases stacked with
    | nil => cases named
    | cons top below =>
      cases named
      obtain ⟨-, once, apart⟩ := List.nodup_append.mp nodup
      have lower (number : Nat) (held : number ∈ below) : number ≠ top := by
        rintro rfl
        exact (List.nodup_cons.mp once).1 held
      have outside (number : Nat) (held : pending = some number) : number ≠ top :=
        apart number (Option.mem_toList.mpr held) top List.mem_cons_self
      have keptBelow := List.map_congr_left fun number held =>
        others (lower number held) (change (holds (.created top)))
      have keptOutside := Option.map_congr fun number held =>
        others (outside number held) (change (holds (.created top)))
      simp [Census.fill, Frames.modify, Stack.modifyTop, keptBelow, keptOutside]
  | temporaryFrame =>
    cases pending with
    | none => cases named
    | some number =>
      cases named
      have apart (other : Nat) (held : other ∈ stacked) : other ≠ number := by
        rintro rfl
        exact (List.nodup_cons.mp nodup).1 held
      have kept := List.map_congr_left fun other held =>
        others (apart other held) (change (holds (.created number)))
      simp [Census.fill, Frames.modify, kept]

private theorem written_of_write (writes : op.write? = some (role, change))
    (named : (Census.of done).named? role = some id) :
    (fun other => written other (op :: done)) =
      Function.update (fun other => written other done) id (change (written id done)) := by
  funext other
  simp only [written, writes, named, Function.update_apply, Option.some.injEq]
  by_cases same : other = id
  · simp [same]
  · simp [same, Ne.symm same]

/-- A write that succeeds is one to the frame that its role names. -/
theorem picture_write {frames : Frames} (writes : op.write? = some (role, change))
    (applied : op.apply (picture done) = .ok frames) : frames = picture (op :: done) := by
  obtain ⟨⟨frame, found⟩, rfl⟩ := FrameOp.apply_write writes applied
  rw [picture, frame_fill] at found
  obtain ⟨id, named, -⟩ := Option.map_eq_some_iff.mp found
  have still : Census.of (op :: done) = Census.of done := by
    cases op with
    | create | push | pop => cases writes
    | declare | assign => rfl
  rw [picture, picture, still, written_of_write writes named]
  exact (fill_update (distinct_of done) named _).symm

/-- What an operation makes of the frames is what the census makes of them. -/
theorem picture_after {frames : Frames} (applied : op.apply (picture done) = .ok frames) :
    frames = picture (op :: done) := by
  cases op with
  | create =>
    cases applied
    have empty := written_of_unmade (Nat.le_refl (Census.of done).made)
    simp [picture, Census.fill, Frames.create, Census.of, Census.after, written, FrameOp.write?,
      empty]
  | push =>
    obtain ⟨frame, pending, rfl⟩ := push_ok_iff.mp applied
    obtain ⟨number, held, rfl⟩ := Option.map_eq_some_iff.mp pending
    simp [picture, Census.fill, Census.of, Census.after, written, FrameOp.write?, held, Stack.push]
  | pop =>
    obtain ⟨frame, top, rfl⟩ := pop_ok_iff.mp applied
    rw [Stack.top?, picture, Census.fill, List.head?_map] at top
    simp [picture, Census.fill, Census.of, Census.after, written, FrameOp.write?, Stack.pop, top]
  | declare | assign => exact picture_write rfl applied

end

/-! ## Histories -/

/-- Every push in a history is followed by the pop that undoes it, and every pop undoes a push. The
latest operation stands first. -/
inductive Balanced : List FrameOp → Prop where
  | nil : Balanced []
  | other {op : FrameOp} {earlier : List FrameOp} (notPush : op ≠ .push) (notPop : op ≠ .pop)
      (rest : Balanced earlier) : Balanced (op :: earlier)
  | pair {inner earlier : List FrameOp} (between : Balanced inner) (rest : Balanced earlier) :
      Balanced (.pop :: (inner ++ .push :: earlier))

/-- Frames are on a stack by pushes that no pop has undone, the latest one on top. -/
inductive Pushed : List FrameOp → List Nat → Prop where
  | none {done : List FrameOp} (balanced : Balanced done) : Pushed done []
  | push {later earlier : List FrameOp} {number : Nat} {below : List Nat}
      (balanced : Balanced later) (pending : (Census.of earlier).pending = some number)
      (rest : Pushed earlier below) : Pushed (later ++ .push :: earlier) (number :: below)

/-- A frame was the temporary one when another one took its place. -/
def Discarded (number : Nat) (done : List FrameOp) : Prop :=
  ∃ later op earlier, done = later ++ op :: earlier ∧ (op = .create ∨ op = .pop) ∧
    (Census.of earlier).pending = some number

section

variable {done earlier : List FrameOp} {op : FrameOp} {number : Nat} {stacked : List Nat}

private theorem length_stacked (lawful : Lawful done) :
    (Census.of done).stacked.length + done.count .pop = done.count .push := by
  induction done with
  | nil => rfl
  | cons op earlier ih =>
    obtain ⟨before, possible⟩ := lawful
    have counted := ih before
    cases op with
    | create | declare | assign => simpa [Census.of, Census.after] using counted
    | push =>
      obtain ⟨number, pending⟩ := push_possible_iff.mp possible
      have grown : (Census.of (.push :: earlier)).stacked.length =
          (Census.of earlier).stacked.length + 1 := by
        simp [Census.of, Census.after, pending]
      simp only [grown, List.count_cons, beq_self_eq_true, ↓reduceIte, reduceCtorEq, beq_iff_eq]
      omega
    | pop =>
      obtain ⟨number, below, top⟩ := pop_possible_iff.mp possible
      have shrunk : (Census.of (.pop :: earlier)).stacked.length + 1 =
          (Census.of earlier).stacked.length := by
        simp [Census.of, Census.after, top]
      simp only [List.count_cons, beq_self_eq_true, ↓reduceIte, reduceCtorEq, beq_iff_eq]
      omega

private theorem pending_iff (lawful : Lawful done) :
    (Census.of done).pending.isSome ↔
      ∃ op, done.find? FrameOp.moves = some op ∧ op ≠ .push := by
  induction done with
  | nil => simp [Census.of]
  | cons op earlier ih =>
    obtain ⟨before, possible⟩ := lawful
    cases op with
    | create | push => simp [Census.of, Census.after, FrameOp.moves]
    | pop =>
      obtain ⟨number, below, top⟩ := pop_possible_iff.mp possible
      simp [Census.of, Census.after, FrameOp.moves, top]
    | declare | assign => simpa [Census.of, Census.after, FrameOp.moves] using ih before

private theorem Pushed.other (pushed : Pushed done stacked) (notPush : op ≠ .push)
    (notPop : op ≠ .pop) :
    Pushed (op :: done) stacked := by
  cases pushed with
  | none balanced => exact .none (.other notPush notPop balanced)
  | push balanced pending rest => exact .push (.other notPush notPop balanced) pending rest

/-- A pop undoes the latest push, and leaves those before it. -/
theorem Pushed.pop (pushed : Pushed done (number :: stacked)) : Pushed (.pop :: done) stacked := by
  cases pushed with
  | push inner pending rest =>
    cases rest with
    | none balanced => exact .none (.pair inner balanced)
    | push balanced below rest =>
      have joined := Pushed.push (.pair inner balanced) below rest
      simpa using joined

private theorem Pushed.last (pushed : Pushed done (number :: stacked)) :
    ∃ later earlier, done = later ++ .push :: earlier ∧ Balanced later ∧
      (Census.of earlier).pending = some number := by
  cases pushed with
  | push balanced pending rest => exact ⟨_, _, rfl, balanced, pending⟩

private theorem pushed_of_lawful (lawful : Lawful done) : Pushed done (Census.of done).stacked := by
  induction done with
  | nil => exact .none .nil
  | cons op earlier ih =>
    obtain ⟨before, possible⟩ := lawful
    have pushed := ih before
    cases op with
    | create | declare | assign => exact pushed.other nofun nofun
    | push =>
      obtain ⟨number, pending⟩ := push_possible_iff.mp possible
      have joined := Pushed.push .nil pending pushed
      simpa [Census.of, Census.after, pending] using joined
    | pop =>
      obtain ⟨number, below, top⟩ := pop_possible_iff.mp possible
      rw [top] at pushed
      simpa [Census.of, Census.after, top] using pushed.pop

private theorem discarded_cons_iff : Discarded number (op :: earlier) ↔
    ((op = .create ∨ op = .pop) ∧ (Census.of earlier).pending = some number) ∨
      Discarded number earlier := by
  constructor
  · rintro ⟨_ | ⟨latest, later⟩, replacing, before, split, moved, pending⟩
    · cases split
      exact .inl ⟨moved, pending⟩
    · cases split
      exact .inr ⟨later, replacing, before, rfl, moved, pending⟩
  · rintro (⟨moved, pending⟩ | ⟨later, replacing, before, rfl, moved, pending⟩)
    · exact ⟨[], op, earlier, rfl, moved, pending⟩
    · exact ⟨op :: later, replacing, before, rfl, moved, pending⟩

private theorem made_of_pending (pending : (Census.of done).pending = some number) :
    number < (Census.of done).made :=
  (distinct_of done).below number (List.mem_append_left _ (Option.mem_toList.mpr pending))

private theorem made_of_discarded (discarded : Discarded number done) :
    number < (Census.of done).made := by
  induction done with
  | nil =>
    obtain ⟨later, op, earlier, split, -⟩ := discarded
    simp at split
  | cons op earlier ih =>
    refine Nat.lt_of_lt_of_le ?_ (made_le_after _ op)
    rcases discarded_cons_iff.mp discarded with ⟨-, pending⟩ | before
    · exact made_of_pending pending
    · exact ih before

private theorem mem_stacked_iff {census : Census} (distinct : census.Distinct) :
    number ∈ census.stacked ↔ number ∈ census.held ∧ census.pending ≠ some number := by
  obtain ⟨-, -, apart⟩ := List.nodup_append.mp distinct.nodup
  rw [Census.held, List.mem_append, Option.mem_toList]
  constructor
  · intro stacked
    refine ⟨.inr stacked, fun pending => ?_⟩
    exact apart number (Option.mem_toList.mpr pending) number stacked rfl
  · rintro ⟨pending | stacked, other⟩
    · exact absurd pending other
    · exact stacked

/-- A frame that is there stays, unless it is the temporary one and another one takes its place. -/
theorem mem_held_after {census : Census} (distinct : census.Distinct) (op : FrameOp) :
    number ∈ (census.after op).held ↔ (op = .create ∧ number = census.made) ∨
      (number ∈ census.held ∧ ¬((op = .create ∨ op = .pop) ∧ census.pending = some number)) := by
  have remaining := @mem_stacked_iff number census distinct
  cases op with
  | create =>
    have created : (census.after .create).held = census.made :: census.stacked := rfl
    simp [created, remaining]
  | push =>
    have moved : (census.after .push).held = census.held := rfl
    simp [moved]
  | pop => simp [held_pop, remaining]
  | declare | assign => simp [Census.after]

private theorem lt_made_after_iff (census : Census) (op : FrameOp) :
    number < (census.after op).made ↔
      number < census.made ∨ (op = .create ∧ number = census.made) := by
  cases op with
  | create =>
    simp only [Census.after, true_and]
    omega
  | push | pop | declare | assign => simp [Census.after]

/-- A frame that has been created is there exactly as long as it has not been discarded. -/
theorem mem_held_iff : number ∈ (Census.of done).held ↔
    number < (Census.of done).made ∧ ¬Discarded number done := by
  induction done with
  | nil => simp [Census.of, Census.held]
  | cons op earlier ih =>
    rw [Census.of, mem_held_after (distinct_of earlier), discarded_cons_iff, ih, lt_made_after_iff]
    constructor
    · rintro (⟨rfl, rfl⟩ | ⟨⟨made, kept⟩, stays⟩)
      · refine ⟨.inr ⟨rfl, rfl⟩, ?_⟩
        -- No frame has the next number yet, so none with that number can have been lost.
        rintro (⟨-, pending⟩ | discarded)
        · exact Nat.lt_irrefl _ (made_of_pending pending)
        · exact Nat.lt_irrefl _ (made_of_discarded discarded)
      · exact ⟨.inl made, not_or.mpr ⟨stays, kept⟩⟩
    · rintro ⟨made | created, remains⟩
      · obtain ⟨stays, kept⟩ := not_or.mp remains
        exact .inr ⟨⟨made, kept⟩, stays⟩
      · exact .inl created

end

/-! ## Conservation -/

namespace Session

/-- The frames of a session by number. -/
def census (session : Session) : Census := Census.of session.done

/-- The frames of a session are those that its history tells of. -/
structure Recorded (session : Session) : Prop where
  lawful : Lawful session.done
  pictured : session.frames = picture session.done

variable {session : Session}

private theorem recorded_start (registers : Registers) :
    (start registers).Recorded := ⟨trivial, rfl⟩

private theorem recorded_attempt (recorded : session.Recorded) (op : FrameOp) :
    (session.attempt op).Recorded := by
  cases applied : op.apply session.frames with
  | error cause =>
    rw [attempt_of_error applied]
    exact recorded
  | ok left =>
    rw [attempt_of_ok applied]
    rw [recorded.pictured] at applied
    exact ⟨⟨recorded.lawful, FrameOp.possible_iff.mpr ⟨left, applied⟩⟩, picture_after applied⟩

private theorem recorded_attemptAll (recorded : session.Recorded) (ops : List FrameOp) :
    (session.attemptAll ops).Recorded := by
  induction ops generalizing session with
  | nil => exact recorded
  | cons op rest ih => exact ih (recorded_attempt recorded op)

/-- The local frame is the top of the stack. -/
theorem local_ok_iff (recorded : session.Recorded) {frame : Frame} :
    session.frames.frame .localFrame = .ok frame ↔
      ∃ number below, session.census.stacked = number :: below ∧
        frame = written (.created number) session.done := by
  rw [recorded.pictured, Frames.frame, picture, frame_fill, Census.named?, ← census]
  cases session.census.stacked with
  | nil => simp
  | cons number below => simp [eq_comm]

end Session

section

variable {registers after : Registers} {op : FrameOp}

private theorem apply_of_ok (done : op.handler registers = .ok () after) :
    op.apply registers.frames = .ok after.frames := by
  rw [FrameOp.handler_run] at done
  cases applied : op.apply registers.frames with
  | ok frames =>
    rw [applied] at done
    cases done
    rfl
  | error cause => simp [applied] at done

private theorem unchanged_of_error {trap : Trap}
    (failed : op.handler registers = .error trap after) :
    after = registers := by
  rw [FrameOp.handler_run] at failed
  cases applied : op.apply registers.frames with
  | ok frames => simp [applied] at failed
  | error cause =>
    rw [applied] at failed
    cases failed
    rfl

private theorem handler_ok_iff :
    (∃ after, op.handler registers = .ok () after) ↔ op.Possible registers.frames := by
  rw [FrameOp.possible_iff, FrameOp.handler_run]
  cases op.apply registers.frames <;> simp

private theorem push_then_pop (pushed : FrameOp.handler .push registers = .ok () after) :
    FrameOp.handler .pop after = .ok () registers := by
  rw [FrameOp.handler_run] at pushed ⊢
  obtain ⟨⟨⟨globals, locals, temporary⟩, data, calls, next, input, written⟩, current⟩ := registers
  cases temporary with
  | none => cases pushed
  | some frame =>
    cases pushed
    rfl

private theorem pop_then_push (popped : FrameOp.handler .pop registers = .ok () after) :
    FrameOp.handler .push after =
      .ok () { registers with frames := { registers.frames with temporary := none } } := by
  rw [FrameOp.handler_run] at popped ⊢
  obtain ⟨⟨⟨globals, ⟨items⟩, temporary⟩, data, calls, next, input, written⟩, current⟩ := registers
  cases items with
  | nil => cases popped
  | cons top below =>
    cases popped
    rfl

end

/-- Frames after any operations, some of which may have failed. There are as many on the stack as
there were pushes that no pop has undone, and there is a temporary one if frames have been moved or
created and the last time was not a push. A frame holds what has been written to it, through
whatever role it had at that time, and nothing else. None is in two places, and none is lost but a
temporary one that another one replaced. -/
theorem frames_are_conserved (registers : Registers) (ops : List FrameOp) (session : Session)
    (ran : (Session.start registers).attemptAll ops = session) :
    -- An operation fails where it has to, and changes nothing then.
    (∀ op : FrameOp,
      ((∃ after, op.handler session.registers = .ok () after) ↔ op.Possible session.frames) ∧
      (∀ after, op.handler session.registers = .ok () after →
        op.apply session.frames = .ok after.frames) ∧
      ∀ trap after, op.handler session.registers = .error trap after →
        after = session.registers) ∧
    session.frames.depth + session.done.count .pop = session.done.count .push ∧
    (session.frames.temporary.isSome ↔
      ∃ op, session.done.find? FrameOp.moves = some op ∧ op ≠ .push) ∧
    -- The local frame is the last one that was pushed and has not been popped since.
    ((∃ frame, session.frames.frame .localFrame = .ok frame) ↔ 0 < session.frames.depth) ∧
    (∀ frame, session.frames.frame .localFrame = .ok frame →
      ∃ later earlier number, session.done = later ++ .push :: earlier ∧ Balanced later ∧
        (Census.of earlier).pending = some number ∧
        frame = written (.created number) session.done) ∧
    -- A push and a pop undo each other.
    (∀ after, FrameOp.handler .push session.registers = .ok () after →
      FrameOp.handler .pop after = .ok () session.registers) ∧
    (∀ after, FrameOp.handler .pop session.registers = .ok () after →
      FrameOp.handler .push after = .ok () { session.registers with
        frames := { session.frames with temporary := none } }) ∧
    -- Every frame that was created is in one place, or was discarded.
    session.frames = session.census.fill (fun id => written id session.done) ∧
    Pushed session.done session.census.stacked ∧
    session.census.held.Nodup ∧
    ∀ number, number ∈ session.census.held ↔
      number < session.census.made ∧ ¬Discarded number session.done := by
  have recorded : session.Recorded := by
    rw [← ran]
    exact Session.recorded_attemptAll (Session.recorded_start registers) ops
  have pushed := pushed_of_lawful recorded.lawful
  have depth : session.frames.depth = session.census.stacked.length := by
    rw [recorded.pictured]
    exact List.length_map _
  refine ⟨fun op => ⟨handler_ok_iff, fun _ => apply_of_ok, fun _ _ => unchanged_of_error⟩,
    ?_, ?_, ?_, ?_,
    fun _ => push_then_pop, fun _ => pop_then_push, recorded.pictured, pushed,
    (distinct_of session.done).nodup, fun _ => mem_held_iff⟩
  · rw [depth]
    exact length_stacked recorded.lawful
  · rw [← pending_iff recorded.lawful, recorded.pictured, picture, Census.fill, Option.isSome_map]
  · rw [depth, List.length_pos_iff_exists_cons]
    constructor
    · rintro ⟨frame, found⟩
      obtain ⟨number, below, top, -⟩ := (Session.local_ok_iff recorded).mp found
      exact ⟨number, below, top⟩
    · rintro ⟨number, below, top⟩
      exact ⟨_, (Session.local_ok_iff recorded).mpr ⟨number, below, top, rfl⟩⟩
  · intro frame found
    obtain ⟨number, below, top, rfl⟩ := (Session.local_ok_iff recorded).mp found
    rw [Session.census] at top
    rw [top] at pushed
    obtain ⟨later, earlier, split, balanced, pending⟩ := pushed.last
    exact ⟨later, earlier, number, split, balanced, pending, rfl⟩

/-- Operations on three frames, two of which fail. The second frame is replaced by the third one,
and that by the first one when it is popped. -/
def shuffling : List FrameOp :=
  [.push, .create, .declare ⟨.temporaryFrame, "x"⟩, .push, .create,
    .assign ⟨.localFrame, "x"⟩ (some (.int 5)), .create, .push, .pop, .pop,
    .declare ⟨.temporaryFrame, "x"⟩, .push]

/-- The session of these operations. -/
def shufflingSession : Session := (Session.start {}).attemptAll shuffling

/-- The frame that is left, with the variable in it. -/
def shufflingFrame : Frame := ⟨[("x", some (.int 5))]⟩

theorem shuffling_leaves_the_first_frame :
    shufflingSession.frames.frame .localFrame = .ok shufflingFrame ∧
    shufflingSession.frames.depth + 2 = 3 ∧
    (∃ later earlier number, shufflingSession.done = later ++ .push :: earlier ∧ Balanced later ∧
      (Census.of earlier).pending = some number ∧
      shufflingFrame = written (.created number) shufflingSession.done) ∧
    Discarded 1 shufflingSession.done ∧ Discarded 2 shufflingSession.done ∧
    ¬Discarded 0 shufflingSession.done := by
  obtain ⟨-, counted, -, -, last, -, -, -, -, -, conserved⟩ :=
    frames_are_conserved {} shuffling shufflingSession rfl
  have found : shufflingSession.frames.frame .localFrame = .ok shufflingFrame := rfl
  have lost (number : Nat) (made : number < shufflingSession.census.made)
      (gone : number ∉ shufflingSession.census.held) : Discarded number shufflingSession.done := by
    by_contra kept
    exact gone ((conserved number).mpr ⟨made, kept⟩)
  exact ⟨found, counted, last shufflingFrame found, lost 1 (by decide) (by decide),
    lost 2 (by decide) (by decide), ((conserved 0).mp (by decide)).2⟩

end Framecode.Engine
