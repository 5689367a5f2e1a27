import ScriptHost.Proofs.Machine.Actions
import ScriptHost.Proofs.Machine.Faults
import ScriptHost.Proofs.Machine.Steps
/-!
# What holds of every frame

A property of the frame that runs and one of the frames that wait hold of all frames of a run as
soon as frames start with the first, an instruction keeps the first or makes it the second, and a
frame that gets the value it waits for has the first again: `Framewise.steps`.
-/

set_option autoImplicit false

namespace ScriptHost.Machine

variable {σ : Type} {setting : Setting σ} {runs waits : Frame → Prop}

/-- What an instruction, a call and a return do to the properties of frames that run and wait. -/
structure Framewise (setting : Setting σ) (runs waits : Frame → Prop) : Prop where
  starts : ∀ (name : String) (chunk : Chunk) (this : Option ObjectRef) (args : List Value)
    (resume : Resume), runs (Frame.start name chunk this args resume)
  goes : ∀ {frame after : Frame} {world world' : World σ} {op : Op}, runs frame →
    frame.chunk.ops[frame.ip]? = some op →
    Acts setting (advance frame) world op (.next after world') → runs after
  pauses : ∀ {frame after callee : Frame} {world world' : World σ} {op : Op}, runs frame →
    frame.chunk.ops[frame.ip]? = some op →
    Acts setting (advance frame) world op (.enter after callee world') → waits after
  resumes : ∀ {frame : Frame}, waits frame → ∀ value : Value, runs (frame.push value)

/-- The frame that runs has the one property, those that wait have the other. -/
structure State.Framed (runs waits : Frame → Prop) (state : State σ) : Prop where
  frame : runs state.frame
  callers : ∀ caller ∈ state.callers, waits caller

namespace Framewise

theorem enter (h : Framewise setting runs waits) {program : Program} {id : Nat}
    {this : Option ObjectRef} {args : List Value} {resume : Resume} {frame : Frame}
    (henter : Machine.enter program id this args resume = .ok frame) : runs frame := by
  obtain ⟨f, -, -, rfl⟩ := enter_ok henter
  exact h.starts f.name f.chunk this args resume

theorem callee (h : Framewise setting runs waits) {frame caller callee : Frame}
    {world world' : World σ} {op : Op}
    (hacts : Acts setting frame world op (.enter caller callee world')) : runs callee := by
  cases hacts with
  | call _ entered | callMethod _ _ _ entered => exact h.enter entered
  | create _ made =>
    obtain ⟨c, -, -, henter, -⟩ := construct_ok made
    exact h.enter henter

theorem pushFrame {callee : Frame} {frames : List Frame} {executed : Nat} {world : World σ}
    {next : State σ} (hcallee : runs callee) (hframes : ∀ frame ∈ frames, waits frame)
    (hpush : Machine.pushFrame callee frames executed world = .running next) :
    next.Framed runs waits := by
  unfold Machine.pushFrame at hpush
  split at hpush
  · cases hpush
  · cases hpush
    exact ⟨hcallee, hframes⟩

theorem deliver (h : Framewise setting runs waits) {value : Value} {callers : List Frame}
    {executed : Nat} {world : World σ} {next : State σ}
    (hcallers : ∀ caller ∈ callers, waits caller)
    (hdeliver : Machine.deliver value callers executed world = .running next) :
    next.Framed runs waits := by
  cases callers with
  | nil => cases hdeliver
  | cons caller rest =>
    cases hdeliver
    obtain ⟨hcaller, hrest⟩ := List.forall_mem_cons.mp hcallers
    exact ⟨h.resumes hcaller value, hrest⟩

theorem finish (h : Framewise setting runs waits) {program : Program} {resume : Resume}
    {value : Value} {callers : List Frame} {executed : Nat} {world : World σ} {next : State σ}
    (hcallers : ∀ caller ∈ callers, waits caller)
    (hfinish : Machine.finish program resume value callers executed world = .running next) :
    next.Framed runs waits := by
  unfold Machine.finish at hfinish
  split at hfinish
  · exact h.deliver hcallers hfinish
  · exact h.deliver hcallers hfinish
  · exact h.deliver hcallers hfinish
  · split at hfinish
    · cases hfinish
    · rename_i henter
      exact pushFrame (h.enter henter) hcallers hfinish

/-- A step keeps the properties. -/
theorem step (h : Framewise setting runs waits) {state next : State σ}
    (hstate : state.Framed runs waits) (hstep : Machine.step setting state = .running next) :
    next.Framed runs waits := by
  cases stepped setting state with
  | off _ steps =>
    rw [steps] at hstep
    exact h.finish hstate.callers hstep
  | limited _ _ steps | full _ _ steps =>
    rw [steps] at hstep
    cases hstep
  | @acts op result opAt _ acted steps =>
    rw [steps] at hstep
    cases result with
    | next after world =>
      cases hstep
      exact ⟨h.goes hstate.frame opAt acted, hstate.callers⟩
    | enter caller callee world =>
      exact pushFrame (h.callee acted)
        (List.forall_mem_cons.mpr ⟨h.pauses hstate.frame opAt acted, hstate.callers⟩) hstep
    | ret value world => exact h.finish hstate.callers hstep
    | fault e world => cases hstep

/-- A run keeps the properties. -/
theorem steps (h : Framewise setting runs waits) {count : Nat} {first last : State σ}
    (hsteps : Steps setting count first last) (hfirst : first.Framed runs waits) :
    last.Framed runs waits := by
  induction hsteps with
  | refl => exact hfirst
  | head hstep _ ih => exact ih (h.step hfirst hstep)

end Framewise

end ScriptHost.Machine

/-! ## Ways through code

A `Walk` goes through code from its first instruction on, from each instruction to a place that it
can lead to. Whatever a frame does in a run, it goes on along a walk: `Moves.walk` for one
instruction, `Steps.walked` for all frames of a run. -/

namespace ScriptHost

/-- A way through code that leads to a place, and the places of the instructions that are executed
on it, the last one first. -/
inductive Walk (ops : Array Op) : List Nat → Nat → Prop
  | start : Walk ops [] 0
  | step {before : List Nat} {place next : Nat} {op : Op} (way : Walk ops before place)
      (opAt : ops[place]? = some op) (leads : next ∈ op.successors (place + 1)) :
      Walk ops (place :: before) next

/-- Some way through its code has led a frame to its place. -/
def Frame.Walked (frame : Frame) : Prop :=
  ∃ before, Walk frame.chunk.ops before frame.ip

namespace Machine

variable {σ : Type} {setting : Setting σ}

/-- An instruction takes a frame one step further on its way. -/
theorem Moves.walk {frame after : Frame} {op : Op} {values : List Value} {before : List Nat}
    (h : Walk frame.chunk.ops before frame.ip) (hop : frame.chunk.ops[frame.ip]? = some op)
    (hmoves : Moves op (advance frame) after values) :
    Walk after.chunk.ops (frame.ip :: before) after.ip := by
  rw [hmoves.chunk]
  exact .step h hop hmoves.ip

/-- A frame that has moved is on its way. -/
theorem Moves.walked {frame after : Frame} {op : Op} {values : List Value} (h : frame.Walked)
    (hop : frame.chunk.ops[frame.ip]? = some op)
    (hmoves : Moves op (advance frame) after values) : after.Walked := by
  obtain ⟨before, hway⟩ := h
  exact ⟨frame.ip :: before, hmoves.walk hway hop⟩

/-- What instructions do keeps frames on their ways. -/
theorem walked_framewise (setting : Setting σ) : Framewise setting Frame.Walked Frame.Walked where
  starts := fun _ _ _ _ _ => ⟨[], .start⟩
  goes := fun h hop hacts =>
    have ⟨_, _, _, hmoves⟩ := hacts.moves
    hmoves.walked h hop
  pauses := fun h hop hacts => hacts.waits.2.2.walked h hop
  resumes := fun h _ => h

/-- Whatever a run does, all its frames are on their ways, those that wait too. -/
theorem Steps.walked {count : Nat} {first last : State σ} (hsteps : Steps setting count first last)
    (h : first.Framed Frame.Walked Frame.Walked) : last.Framed Frame.Walked Frame.Walked :=
  (walked_framewise setting).steps hsteps h

end Machine

end ScriptHost
