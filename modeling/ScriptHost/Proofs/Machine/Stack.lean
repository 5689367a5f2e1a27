import ScriptHost.Proofs.Code.Depth
import ScriptHost.Proofs.Machine.Actions
import ScriptHost.Proofs.Machine.Faults
import ScriptHost.Proofs.Machine.Steps
/-!
# The machine keeps to the depths

If there are depths for all code of a program, the operand stack of every frame is as deep as they
say, in every state of every run: there are always enough operands, no frame runs off the end of its
code, and the stack is full only where the depths say so.
-/

set_option autoImplicit false

namespace ScriptHost

/-- There are depths for the code of a chunk, all of which are allowed. -/
def Chunk.Levelled (allowed : Nat → Prop) (chunk : Chunk) : Prop :=
  ∃ depths, Balanced depths chunk.ops ∧ ∀ depth ∈ depths, allowed depth

/-- There are depths for the code of all functions. -/
def Program.Levelled (allowed : Nat → Prop) (program : Program) : Prop :=
  ∀ (id : Nat) (f : Function), program.functions[id]? = some f → f.chunk.Levelled allowed

/-- The operand stack of a frame is as deep as its code says, once `owed` more values are on it,
whichever depths for the code are taken. -/
structure Frame.Levelled (allowed : Nat → Prop) (owed : Nat) (frame : Frame) : Prop where
  chunk : frame.chunk.Levelled allowed
  depth : ∀ depths, Balanced depths frame.chunk.ops →
    depths[frame.ip]? = some (frame.stack.length + owed)

/-- A chunk starts with an empty stack. -/
theorem Chunk.Levelled.start {allowed : Nat → Prop} {chunk : Chunk} (h : chunk.Levelled allowed)
    (name : String) (this : Option ObjectRef) (args : List Value) (resume : Resume) :
    (Frame.start name chunk this args resume).Levelled allowed 0 :=
  ⟨h, fun _ hbalanced => hbalanced.entry⟩

/-- What fits an instruction leaves it enough operands. -/
theorem OpFits.enough {depths : Array Nat} {place depth : Nat} {op : Op}
    (h : OpFits depths place op) (hdepth : depths[place]? = some depth) : op.needs ≤ depth := by
  obtain ⟨depth', hdepth', henough, -⟩ := h
  rw [hdepth, Option.some.injEq] at hdepth'
  exact hdepth' ▸ henough

/-- A frame whose stack is as deep as its code says has the operands of its next instruction. -/
theorem Frame.Levelled.enough {allowed : Nat → Prop} {frame : Frame} (h : frame.Levelled allowed 0)
    {op : Op} (hop : frame.chunk.ops[frame.ip]? = some op) : op.needs ≤ frame.stack.length := by
  obtain ⟨depths, hbalanced, -⟩ := h.chunk
  exact (hbalanced.fits _ op hop).enough (h.depth depths hbalanced)

/-- A frame whose stack is as deep as its code says has an instruction before it. -/
theorem Frame.Levelled.opAt {allowed : Nat → Prop} {owed : Nat} {frame : Frame}
    (h : frame.Levelled allowed owed) : ∃ op, frame.chunk.ops[frame.ip]? = some op := by
  obtain ⟨depths, hbalanced, -⟩ := h.chunk
  have hinside := (Array.getElem?_eq_some_iff.mp (h.depth depths hbalanced)).1
  rw [hbalanced.size] at hinside
  exact ⟨_, Array.getElem?_eq_getElem hinside⟩

/-- The depth where a frame goes on after an instruction. -/
theorem OpFits.behind {depths : Array Nat} {place next depth : Nat} {op : Op}
    (h : OpFits depths place op) (hdepth : depths[place]? = some depth)
    (hnext : next ∈ op.successors (place + 1)) :
    depths[next]? = some (depth - op.needs + op.puts) := by
  obtain ⟨depth', hdepth', -, hleads⟩ := h
  rw [hdepth, Option.some.injEq] at hdepth'
  rw [hleads next hnext, hdepth']

namespace Machine

variable {σ : Type} {setting : Setting σ} {allowed : Nat → Prop}

/-- All operand stacks are as deep as they should be. A frame that waits is owed a value. -/
structure State.Levelled (allowed : Nat → Prop) (state : State σ) : Prop where
  frame : state.frame.Levelled allowed 0
  callers : ∀ caller ∈ state.callers, caller.Levelled allowed 1

/-- A function that is entered starts with an empty stack. -/
theorem enter_levelled {program : Program} (hprogram : program.Levelled allowed) {id : Nat}
    {this : Option ObjectRef} {args : List Value} {resume : Resume} {frame : Frame}
    (h : enter program id this args resume = .ok frame) : frame.Levelled allowed 0 := by
  obtain ⟨f, hf, -, rfl⟩ := enter_ok h
  exact (hprogram id f hf).start f.name this args resume

/-- A function that initialises fields starts with an empty stack. -/
theorem construct_levelled {program : Program} (hprogram : program.Levelled allowed)
    {classId : Nat} {args : List Value} {heap : Heap} {frame : Frame} {fields : Fields}
    (h : construct program classId args heap = .ok (frame, fields)) : frame.Levelled allowed 0 := by
  obtain ⟨c, -, -, henter, -⟩ := construct_ok h
  exact enter_levelled hprogram henter

/-- A fault of an instruction has nothing to do with the stack, unless operands are missing. -/
theorem Acts.fault_cases {frame : Frame} {world after : World σ} {op : Op} {e : Fault}
    (h : Acts setting frame world op (.fault e after)) :
    (frame.stack.length < op.needs ∧ e = .stackUnderflow) ∨
      (e ≠ .stackUnderflow ∧ e ≠ .stackOverflow) := by
  have hoperands : ∀ {e : Fault}, e.ofOperands = true →
      e ≠ .stackUnderflow ∧ e ≠ .stackOverflow := by
    rintro e he
    constructor <;> rintro rfl <;> cases he
  have henter : ∀ {program : Program} {id : Nat} {this : Option ObjectRef} {args : List Value}
      {resume : Resume} {e : Fault}, enter program id this args resume = .error e →
      e ≠ .stackUnderflow ∧ e ≠ .stackOverflow := by
    intro program id this args resume e he
    obtain ⟨-, rfl⟩ | ⟨f, -, -, rfl⟩ := enter_error he <;> exact ⟨nofun, nofun⟩
  cases h with
  | underflow few => exact .inl ⟨few, rfl⟩
  | unnamed _ missing =>
    obtain ⟨rfl, -⟩ := constantName_error missing
    exact .inr ⟨nofun, nofun⟩
  | noTruth _ truth => exact .inr (hoperands (condition_error truth))
  | noField _ _ unowned | noTarget _ _ unowned =>
    exact .inr (hoperands (fieldOwner_error unowned))
  | noUnary operator _ computed => exact .inr (hoperands (unary_error operator computed))
  | noBinary operator _ computed => exact .inr (hoperands (binary_error operator computed))
  | noHost _ called =>
    refine .inr ?_
    obtain ⟨-, rfl⟩ | ⟨_, -, hhost | ⟨_, -, ⟨-, rfl⟩ | ⟨_, -, -, rfl⟩⟩⟩ := callHost_error called
    · exact ⟨nofun, nofun⟩
    · constructor <;> rintro rfl <;> cases hhost
    · exact ⟨nofun, nofun⟩
    · exact ⟨nofun, nofun⟩
  | noCall _ entered => exact .inr (henter entered)
  | noMethod _ _ found =>
    refine .inr ?_
    obtain ⟨_, -, -, rfl⟩ | he := method_error found
    · exact ⟨nofun, nofun⟩
    · exact hoperands he
  | noEntry _ _ _ entered => exact .inr (henter entered)
  | noObject _ made =>
    refine .inr ?_
    obtain ⟨-, rfl⟩ | ⟨_, -, ⟨-, -, rfl⟩ | ⟨_, _, entered⟩⟩ := construct_error made
    · exact ⟨nofun, nofun⟩
    · exact ⟨nofun, nofun⟩
    · exact henter entered

/-- A fault of an instruction that has its operands has nothing to do with the stack. -/
theorem Acts.fault_ne {frame : Frame} {world after : World σ} {op : Op} {e : Fault}
    (h : Acts setting frame world op (.fault e after)) (henough : op.needs ≤ frame.stack.length) :
    e ≠ .stackUnderflow ∧ e ≠ .stackOverflow := by
  obtain ⟨few, -⟩ | hne := h.fault_cases
  · exact absurd henough (Nat.not_le.mpr few)
  · exact hne

/-- What an instruction does to the depth: a frame that goes on has the depth of the place where it
goes on, one that waits will have it, and one that is called starts with an empty stack. -/
def Effect.Levelled (allowed : Nat → Prop) (depths : Array Nat) (chunk : Chunk) :
    Effect σ → Prop
  | .next frame _ => frame.chunk = chunk ∧ depths[frame.ip]? = some frame.stack.length
  | .enter caller callee _ =>
    caller.chunk = chunk ∧ depths[caller.ip]? = some (caller.stack.length + 1) ∧
      callee.Levelled allowed 0
  | .ret _ _ => True
  | .fault e _ => e ≠ .stackUnderflow ∧ e ≠ .stackOverflow

/-- What an instruction does fits the depths, if they fit the instruction. -/
theorem Acts.levelled {frame : Frame} {world : World σ} {op : Op} {result : Effect σ}
    {depths : Array Nat} (h : Acts setting (advance frame) world op result)
    (hprogram : setting.program.Levelled allowed) (hfits : OpFits depths frame.ip op)
    (hdepth : depths[frame.ip]? = some frame.stack.length) :
    result.Levelled allowed depths frame.chunk := by
  cases result with
  | fault e after =>
    exact h.fault_ne (hfits.enough hdepth)
  | ret value after => trivial
  | next after world' =>
    obtain ⟨values, hvalues, -, hmoves⟩ := h.moves
    refine ⟨hmoves.chunk, (hfits.behind hdepth hmoves.ip).trans ?_⟩
    rw [hmoves.stack, List.length_append, hvalues, List.length_drop, Nat.add_comm]
    rfl
  | enter caller callee world' =>
    obtain ⟨hputs, -, hmoves⟩ := h.waits
    refine ⟨hmoves.chunk, (hfits.behind hdepth hmoves.ip).trans ?_, ?_⟩
    · rw [hmoves.stack, hputs, List.nil_append, List.length_drop]
      rfl
    · cases h with
      | call _ entered | callMethod _ _ _ entered => exact enter_levelled hprogram entered
      | create _ made => exact construct_levelled hprogram made

/-- What becomes of a step: the depths are kept, or the run ends for a reason that is not the
operand stack, unless a depth that is allowed fills it. -/
def Outcome.Levelled (allowed : Nat → Prop) : Outcome σ → Prop
  | .running state => state.Levelled allowed
  | .ended ending => ∀ e, ending.result = .error e → e.fault ≠ .stackUnderflow ∧
      (e.fault = .stackOverflow → ∃ depth, allowed depth ∧ maxStack ≤ depth)

/-- A frame goes on top of others at the start of its code. -/
theorem pushFrame_levelled {callee : Frame} {frames : List Frame} {executed : Nat}
    {world : World σ} (hcallee : callee.Levelled allowed 0)
    (hframes : ∀ frame ∈ frames, frame.Levelled allowed 1) :
    (pushFrame callee frames executed world).Levelled allowed := by
  unfold pushFrame
  split
  · intro e he
    cases he
    exact ⟨nofun, nofun⟩
  · exact ⟨hcallee, hframes⟩

/-- A frame gets the value that it is owed. -/
theorem deliver_levelled {value : Value} {callers : List Frame} {executed : Nat}
    {world : World σ} (hcallers : ∀ caller ∈ callers, caller.Levelled allowed 1) :
    (deliver value callers executed world).Levelled allowed := by
  cases callers with
  | nil => exact fun e he => by cases he
  | cons caller rest =>
    obtain ⟨hchunk, hdepth⟩ := hcallers caller List.mem_cons_self
    exact ⟨⟨hchunk, hdepth⟩, fun other hother => hcallers other (List.mem_cons_of_mem _ hother)⟩

/-- What follows a return keeps the depths. -/
theorem finish_levelled {program : Program} (hprogram : program.Levelled allowed)
    {resume : Resume} {value : Value} {callers : List Frame} {executed : Nat} {world : World σ}
    (hcallers : ∀ caller ∈ callers, caller.Levelled allowed 1) :
    (finish program resume value callers executed world).Levelled allowed := by
  unfold finish
  split
  · exact deliver_levelled hcallers
  · exact deliver_levelled hcallers
  · exact deliver_levelled hcallers
  · split
    · rename_i henter
      intro e he
      cases he
      obtain ⟨-, rfl⟩ | ⟨_, -, -, rfl⟩ := enter_error henter <;> exact ⟨nofun, nofun⟩
    · rename_i henter
      exact pushFrame_levelled (enter_levelled hprogram henter) hcallers

/-- Every step keeps the depths. -/
theorem step_levelled (hprogram : setting.program.Levelled allowed) {state : State σ}
    (h : state.Levelled allowed) : (step setting state).Levelled allowed := by
  obtain ⟨depths, hbalanced, hallowed⟩ := h.frame.chunk
  have hdepth := h.frame.depth depths hbalanced
  cases stepped setting state with
  | off _ steps =>
    rw [steps]
    exact finish_levelled hprogram h.callers
  | limited _ _ steps =>
    rw [steps]
    intro e he
    cases he
    exact ⟨nofun, nofun⟩
  | full _ noRoom steps =>
    rw [steps]
    intro e he
    cases he
    exact ⟨nofun, fun _ => ⟨_, hallowed _ (Array.mem_of_getElem? hdepth), noRoom⟩⟩
  | @acts op result opAt room acted steps =>
    rw [steps]
    have hall : ∀ depths, Balanced depths state.frame.chunk.ops →
        result.Levelled allowed depths state.frame.chunk := fun depths hbalanced =>
      acted.levelled hprogram (hbalanced.fits _ op opAt) (h.frame.depth depths hbalanced)
    have hresult := hall depths hbalanced
    cases result with
    | next after world =>
      obtain ⟨hchunk, -⟩ := hresult
      refine ⟨⟨hchunk ▸ h.frame.chunk, fun others hothers => ?_⟩, h.callers⟩
      exact (hall others (hchunk ▸ hothers)).2
    | enter caller callee world =>
      obtain ⟨hchunk, -, hcallee⟩ := hresult
      refine pushFrame_levelled hcallee (List.forall_mem_cons.mpr ⟨?_, h.callers⟩)
      refine ⟨hchunk ▸ h.frame.chunk, fun others hothers => ?_⟩
      exact (hall others (hchunk ▸ hothers)).2.1
    | ret value world => exact finish_levelled hprogram h.callers
    | fault e world =>
      intro e' he
      cases he
      exact ⟨hresult.1, fun hfull => absurd hfull hresult.2⟩

/-- Every state of a run keeps the depths. -/
theorem Steps.levelled (hprogram : setting.program.Levelled allowed) {count : Nat}
    {state last : State σ} (hsteps : Steps setting count state last) (h : state.Levelled allowed) :
    last.Levelled allowed := by
  induction hsteps with
  | refl => exact h
  | @head count first second last hstep _ ih =>
    have hnext := step_levelled hprogram h
    rw [hstep] at hnext
    exact ih hnext

/-- A run does not end for want of operands, and only ends for want of stack where a depth fills
it. -/
theorem run_levelled (hprogram : setting.program.Levelled allowed) {fuel : Nat} {state : State σ}
    {ending : Ending σ} (h : state.Levelled allowed) (hrun : run setting fuel state = some ending) :
    (Outcome.ended ending).Levelled allowed := by
  obtain ⟨count, last, hsteps, hend⟩ := run_ends hrun
  have hlast := step_levelled hprogram (hsteps.levelled hprogram h)
  rw [hend] at hlast
  exact hlast

end Machine

end ScriptHost
