import ScriptHost.Proofs.Machine.Faults
import ScriptHost.Proofs.Machine.Steps
/-!
# What a trace tells

A fault carries the names of the frames that were active when it arose, the innermost first. There
is one exception. A frame that has initialised the fields of an object is gone before the
constructor of the object is entered; where that is refused, the trace starts below it
(`State.Refuses`).

`ended_told` says what the trace is for one step. Over a run the frames are never more than there
is room for, and the one at the bottom is the one that the run began with, or the constructor that
took its place: `Steps.rooted`. Both together are `run_recounted`.
-/

set_option autoImplicit false

namespace ScriptHost.Machine

variable {σ : Type} {setting : Setting σ}

/-- The active frames, the innermost first. -/
def State.frames (state : State σ) : List Frame :=
  state.frame :: state.callers

/-- The frame that runs has initialised the fields of an object and is finished, and the constructor
of the object cannot be entered. -/
structure State.Refuses (program : Program) (state : State σ) (e : Fault) : Prop where
  finished : ∀ op, state.frame.chunk.ops[state.frame.ip]? = some op → op = .ret
  refused : ∃ object id args, state.frame.resume = .construct object (some (id, args)) ∧
    enter program id (some object) args (.object object) = .error e

/-! ## One step -/

/-- A frame that goes on keeps its name and what becomes of its value. -/
theorem Acts.next_same {frame after : Frame} {world world' : World σ} {op : Op}
    (h : Acts setting frame world op (.next after world')) :
    after.name = frame.name ∧ after.resume = frame.resume := by
  cases h <;> exact ⟨rfl, rfl⟩

/-- So does a frame that waits. -/
theorem Acts.enter_same {frame after callee : Frame} {world world' : World σ} {op : Op}
    (h : Acts setting frame world op (.enter after callee world')) :
    after.name = frame.name ∧ after.resume = frame.resume := by
  cases h <;> exact ⟨rfl, rfl⟩

/-- What a call that is refused does not end with. -/
theorem enter_error_ne {program : Program} {id : Nat} {this : Option ObjectRef}
    {args : List Value} {resume : Resume} {e : Fault}
    (h : enter program id this args resume = .error e) :
    (∀ limit, e ≠ .instructionLimit limit) ∧ e ≠ .stackOverflow ∧ e ≠ .stackUnderflow ∧
      ∀ callee, e ≠ .callDepth callee := by
  obtain ⟨-, rfl⟩ | ⟨f, -, -, rfl⟩ := enter_error h <;> exact ⟨nofun, nofun, nofun, nofun⟩

/-- A run that ends when a frame is put on top of others has no room for it. -/
theorem pushFrame_ended {callee : Frame} {frames : List Frame} {executed : Nat} {world : World σ}
    {ending : Ending σ} (h : pushFrame callee frames executed world = .ended ending) :
    maxCallDepth ≤ frames.length ∧
      ending.result = .error ⟨.callDepth callee.name, traceOf frames⟩ := by
  unfold pushFrame at h
  split at h
  · rename_i hfull
    cases h
    exact ⟨hfull, rfl⟩
  · cases h

/-- A run that ends with a fault when a frame has returned could not enter a constructor. -/
theorem finish_error {program : Program} {resume : Resume} {value : Value} {callers : List Frame}
    {executed : Nat} {world : World σ} {ending : Ending σ} {e : RuntimeError}
    (hroom : callers.length < maxCallDepth)
    (h : finish program resume value callers executed world = .ended ending)
    (he : ending.result = .error e) :
    e.trace = traceOf callers ∧ ∃ object id args, resume = .construct object (some (id, args)) ∧
      enter program id (some object) args (.object object) = .error e.fault := by
  have hdelivered : ∀ value : Value, deliver value callers executed world ≠ .ended ending := by
    rintro value hend
    cases callers with
    | nil =>
      cases hend
      cases he
    | cons caller rest => cases hend
  unfold finish at h
  split at h
  · exact absurd h (hdelivered _)
  · exact absurd h (hdelivered _)
  · exact absurd h (hdelivered _)
  · rename_i object id args
    split at h
    · rename_i refusal henter
      cases h
      cases he
      exact ⟨rfl, object, id, args, rfl, henter⟩
    · exact absurd (pushFrame_ended h).1 (Nat.not_le.mpr hroom)

/-- The trace of a fault: all active frames, or all but one that has left its object to a
constructor that was refused. -/
def ToldAt (program : Program) (state : State σ) (e : RuntimeError) : Prop :=
  (¬ state.Refuses program e.fault ∧ e.trace = traceOf state.frames) ∨
    (state.Refuses program e.fault ∧ e.trace = traceOf state.callers)

/-- A fault that no refused call leads to carries all active frames. -/
theorem traced_of_frames {program : Program} {state : State σ} {e : RuntimeError}
    (hfault : ∀ id this args resume, enter program id this args resume ≠ .error e.fault)
    (htrace : e.trace = traceOf state.frames) : ToldAt program state e := by
  refine .inl ⟨?_, htrace⟩
  rintro ⟨-, object, id, args, -, henter⟩
  exact hfault _ _ _ _ henter

/-- The trace of a fault with which a finished frame ends the run. -/
theorem traced_of_finish {program : Program} {state : State σ} {value : Value} {executed : Nat}
    {world : World σ} {ending : Ending σ} {e : RuntimeError}
    (hfinished : ∀ op, state.frame.chunk.ops[state.frame.ip]? = some op → op = .ret)
    (hroom : state.frames.length ≤ maxCallDepth)
    (h : finish program state.frame.resume value state.callers executed world = .ended ending)
    (he : ending.result = .error e) : ToldAt program state e := by
  obtain ⟨htrace, hrefused⟩ := finish_error (Nat.lt_of_succ_le hroom) h he
  exact .inr ⟨⟨hfinished, hrefused⟩, htrace⟩

/-- The trace of the fault with which a step ends the run. -/
theorem ended_told {state : State σ} {ending : Ending σ} {e : RuntimeError}
    (hroom : state.frames.length ≤ maxCallDepth) (h : step setting state = .ended ending)
    (he : ending.result = .error e) : ToldAt setting.program state e := by
  cases stepped setting state with
  | off noOp steps =>
    rw [steps] at h
    refine traced_of_finish (fun op hop => ?_) hroom h he
    rw [noOp] at hop
    cases hop
  | limited _ _ steps =>
    rw [steps] at h
    cases h
    cases he
    exact traced_of_frames (fun _ _ _ _ henter => (enter_error_ne henter).1 _ rfl) rfl
  | full _ _ steps =>
    rw [steps] at h
    cases h
    cases he
    exact traced_of_frames (fun _ _ _ _ henter => (enter_error_ne henter).2.1 rfl) rfl
  | @acts op result opAt _ acted steps =>
    rw [steps] at h
    cases result with
    | next after world => cases h
    | enter caller callee world =>
      rw [(pushFrame_ended h).2] at he
      cases he
      refine traced_of_frames (fun _ _ _ _ henter => (enter_error_ne henter).2.2.2 _ rfl) ?_
      simp [traceOf, State.frames, acted.enter_same.1, advance]
    | ret value world =>
      have hret : op = .ret := by cases acted; rfl
      refine traced_of_finish (fun op' hop => ?_) hroom h he
      rw [opAt] at hop
      exact (Option.some.inj hop).symm.trans hret
    | fault e' world =>
      cases h
      cases he
      refine .inl ⟨?_, rfl⟩
      rintro ⟨hfinished, object, id, args, -, henter⟩
      -- a return itself cannot fail but for want of an operand
      obtain rfl := hfinished op opAt
      cases acted with
      | underflow _ => exact (enter_error_ne henter).2.2.1 rfl
      | unnamed names _ | noUnary names _ _ | noBinary names _ _ => cases names

/-! ## Runs -/

/-- There are no more frames than there is room for, and the one at the bottom has a name, and a
use for its value, that `root` allows. -/
structure Rooted (root : String → Resume → Prop) (frames : List Frame) : Prop where
  room : frames.length ≤ maxCallDepth
  bottom : ∀ frame, frames.getLast? = some frame → root frame.name frame.resume

variable {root : String → Resume → Prop}

/-- A frame in the place of another with the same name and use. -/
theorem Rooted.replace {frame after : Frame} {callers : List Frame}
    (h : Rooted root (frame :: callers))
    (hsame : after.name = frame.name ∧ after.resume = frame.resume) :
    Rooted root (after :: callers) := by
  refine ⟨h.room, fun bottom hbottom => ?_⟩
  cases callers with
  | nil =>
    obtain rfl : after = bottom := Option.some.inj hbottom
    rw [hsame.1, hsame.2]
    exact h.bottom frame rfl
  | cons caller rest => exact h.bottom bottom hbottom

/-- A frame put on top of others, if there was room for it. -/
theorem Rooted.push {caller callee : Frame} {callers : List Frame} {executed : Nat}
    {world : World σ} {next : State σ} (h : Rooted root (caller :: callers))
    (hpush : pushFrame callee (caller :: callers) executed world = .running next) :
    Rooted root next.frames := by
  unfold pushFrame at hpush
  split at hpush
  · cases hpush
  · rename_i hroom
    cases hpush
    exact ⟨Nat.lt_of_not_le hroom, h.bottom⟩

/-- A value is handed to the frame below. -/
theorem Rooted.deliver {frame : Frame} {value : Value} {callers : List Frame} {executed : Nat}
    {world : World σ} {next : State σ} (h : Rooted root (frame :: callers))
    (hdeliver : deliver value callers executed world = .running next) :
    Rooted root next.frames := by
  cases callers with
  | nil => cases hdeliver
  | cons caller rest =>
    cases hdeliver
    have hbelow : Rooted root (caller :: rest) := ⟨Nat.le_of_succ_le h.room, h.bottom⟩
    exact hbelow.replace ⟨rfl, rfl⟩

/-- What `root` has to allow: with a frame that leaves its object to a constructor also the
constructor. -/
def ClosedRoot (program : Program) (root : String → Resume → Prop) : Prop :=
  ∀ name object id args f, root name (.construct object (some (id, args))) →
    program.functions[id]? = some f → root f.name (.object object)

/-- What is left when a frame has returned. -/
theorem Rooted.finish {program : Program} (hroot : ClosedRoot program root) {frame : Frame}
    {callers : List Frame} {next : State σ} {value : Value} {executed : Nat} {world : World σ}
    (h : Rooted root (frame :: callers))
    (hfinish : finish program frame.resume value callers executed world = .running next) :
    Rooted root next.frames := by
  unfold Machine.finish at hfinish
  split at hfinish
  · exact h.deliver hfinish
  · exact h.deliver hfinish
  · exact h.deliver hfinish
  · rename_i object id args hresume
    split at hfinish
    · cases hfinish
    · rename_i callee henter
      obtain ⟨f, hf, -, rfl⟩ := enter_ok henter
      cases callers with
      | nil =>
        -- the constructor takes the place of the frame at the bottom
        unfold pushFrame at hfinish
        split at hfinish
        · cases hfinish
        · cases hfinish
          have hbottom := h.bottom frame rfl
          rw [hresume] at hbottom
          refine ⟨h.room, fun bottom hlast => ?_⟩
          obtain rfl := Option.some.inj hlast
          exact hroot frame.name object id args f hbottom hf
      | cons caller rest => exact Rooted.push ⟨Nat.le_of_succ_le h.room, h.bottom⟩ hfinish

/-- A step keeps the bottom. -/
theorem Rooted.step (hroot : ClosedRoot setting.program root) {state next : State σ}
    (h : Rooted root state.frames) (hstep : Machine.step setting state = .running next) :
    Rooted root next.frames := by
  cases stepped setting state with
  | off _ steps =>
    rw [steps] at hstep
    exact h.finish hroot hstep
  | limited _ _ steps | full _ _ steps =>
    rw [steps] at hstep
    cases hstep
  | @acts op result opAt _ acted steps =>
    rw [steps] at hstep
    cases result with
    | next frame world =>
      cases hstep
      exact h.replace acted.next_same
    | enter caller callee world => exact (h.replace acted.enter_same).push hstep
    | ret value world => exact h.finish hroot hstep
    | fault e world => cases hstep

/-- A run keeps the bottom. -/
theorem Steps.rooted (hroot : ClosedRoot setting.program root) {count : Nat}
    {first last : State σ} (hsteps : Steps setting count first last)
    (h : Rooted root first.frames) : Rooted root last.frames := by
  induction hsteps with
  | refl => exact h
  | head hstep _ ih => exact ih (h.step hroot hstep)

/-- A run starts with its bottom. -/
theorem rooted_start {frame : Frame} (h : root frame.name frame.resume) : Rooted root [frame] where
  room := by simp [maxCallDepth]
  bottom := by
    rintro _ ⟨⟩
    exact h

/-- What the trace of a fault tells of the run that it ended. The names that the frame at the bottom
may have are those in `base`. -/
structure Recounted (setting : Setting σ) (base : String → Prop) (first last : State σ)
    (e : RuntimeError) : Prop where
  ended : ∃ count ending, Steps setting count first last ∧ step setting last = .ended ending ∧
    ending.result = .error e
  /-- All active frames are told, unless a constructor was refused. -/
  all : e.trace = traceOf last.frames ↔ ¬ last.Refuses setting.program e.fault
  /-- Then all are told but the one that has left its object to the constructor. -/
  others : last.Refuses setting.program e.fault → e.trace = traceOf last.callers
  /-- So there is no trace if that was the only one. -/
  none : e.trace = [] ↔ last.callers = [] ∧ last.Refuses setting.program e.fault
  bottom : ∀ name, e.trace.getLast? = some name → base name
  room : e.trace.length ≤ maxCallDepth

/-- The name at the end of a trace is that of the frame at the bottom. -/
theorem Rooted.getLast_trace {frames : List Frame} (h : Rooted root frames) {name : String}
    (hname : (traceOf frames).getLast? = some name) : ∃ resume, root name resume := by
  rw [traceOf, List.getLast?_map] at hname
  obtain ⟨frame, hframe, rfl⟩ := Option.map_eq_some_iff.mp hname
  exact ⟨frame.resume, h.bottom frame hframe⟩

/-- What is below the frame that runs has the same bottom. -/
theorem Rooted.callers {state : State σ} (h : Rooted root state.frames) :
    Rooted root state.callers := by
  refine ⟨Nat.le_of_succ_le h.room, fun frame hframe => h.bottom frame ?_⟩
  rw [State.frames, List.getLast?_cons, hframe]
  rfl

/-- The trace of a fault tells what the run was doing. -/
theorem ToldAt.recounted {first last : State σ} {count : Nat} {ending : Ending σ} {e : RuntimeError}
    (hsteps : Steps setting count first last) (hend : step setting last = .ended ending)
    (he : ending.result = .error e) (hrooted : Rooted root last.frames)
    (h : ToldAt setting.program last e) :
    Recounted setting (fun name => ∃ resume, root name resume) first last e := by
  have hended : ∃ count ending, Steps setting count first last ∧
      step setting last = .ended ending ∧ ending.result = .error e :=
    ⟨count, ending, hsteps, hend, he⟩
  obtain ⟨hnot, htrace⟩ | ⟨hrefuses, htrace⟩ := h
  · refine ⟨hended, ⟨fun _ => hnot, fun _ => htrace⟩, fun h => absurd h hnot, ?_,
      fun name hname => hrooted.getLast_trace (htrace ▸ hname), ?_⟩
    · simp [htrace, traceOf, State.frames, hnot]
    · rw [htrace, traceOf, List.length_map]
      exact hrooted.room
  · have hfewer : traceOf last.callers ≠ traceOf last.frames := fun heq => by
      simpa [traceOf, State.frames] using congrArg List.length heq
    refine ⟨hended, ⟨fun h => absurd (htrace.symm.trans h) hfewer, fun h => absurd hrefuses h⟩,
      fun _ => htrace, ?_, fun name hname => hrooted.callers.getLast_trace (htrace ▸ hname), ?_⟩
    · simp [htrace, traceOf, hrefuses]
    · rw [htrace, traceOf, List.length_map]
      exact hrooted.callers.room

/-- What the trace tells of a run that has ended with a fault. -/
theorem run_recounted (hroot : ClosedRoot setting.program root) {frame : Frame}
    (h : root frame.name frame.resume) {executed fuel : Nat} {world : World σ}
    {ending : Ending σ} {e : RuntimeError}
    (hrun : run setting fuel ⟨frame, [], executed, world⟩ = some ending)
    (he : ending.result = .error e) :
    ∃ last, Rooted root last.frames ∧
      Recounted setting (fun name => ∃ resume, root name resume) ⟨frame, [], executed, world⟩ last
        e := by
  obtain ⟨count, last, hsteps, hend⟩ := run_ends hrun
  have hrooted := hsteps.rooted hroot (rooted_start h)
  exact ⟨last, hrooted, (ended_told hrooted.room hend he).recounted hsteps hend he hrooted⟩

end ScriptHost.Machine
