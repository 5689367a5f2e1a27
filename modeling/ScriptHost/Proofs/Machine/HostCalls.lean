import Mathlib.Logic.Relation
import ScriptHost.Proofs.Machine.Objects
/-!
# Calls of host functions

The state of the host changes in a run where an instruction calls a host function, and nowhere else:
`step_host` for one step, `run_host` for a whole run. A binding whose module is no longer loaded
leads to no function, and the run ends there.
-/

set_option autoImplicit false

namespace ScriptHost.Machine

variable {σ : Type} {setting : Setting σ}

/-- A call of a host function, and the binding through which it is made. -/
structure HostCall (σ : Type) where
  binding : HostBinding
  function : HostFunction σ
  args : List Value

/-- The host after a call. -/
def HostCall.act (call : HostCall σ) (host : σ) : σ :=
  (call.function.call call.args host).2

/-- A state comes to the call of a host function. -/
inductive CallsHost (setting : Setting σ) (state : State σ) : HostCall σ → Prop
  | mk {id : Nat} {binding : HostBinding} {f : HostFunction σ} {args rest : List Value}
      (opAt : state.frame.chunk.ops[state.frame.ip]? = some (.callHost id args.length))
      (operands : state.frame.stack = args.reverse ++ rest)
      (bound : setting.program.bindings[id]? = some binding)
      (found : boundFunction setting.catalog binding args.length = .ok f) :
      CallsHost setting state ⟨binding, f, args⟩

/-- Some calls lead from one state of the host to another. -/
abbrev HostCall.Leads (made : HostCall σ → Prop) : σ → σ → Prop :=
  Relation.ReflTransGen fun host after => ∃ call, made call ∧ after = call.act host

/-! ## One step -/

/-- A call of a host function changes the host as the function does, if it gets that far. -/
theorem callHost_host {id : Nat} {args : List Value} {host after : σ} {result : Except Fault Value}
    (h : callHost setting id args host = (result, after)) :
    after = host ∨ ∃ binding f, setting.program.bindings[id]? = some binding ∧
      boundFunction setting.catalog binding args.length = .ok f ∧
        after = (f.call args host).2 := by
  unfold callHost at h
  split at h
  · cases h
    exact .inl rfl
  · rename_i binding hbinding
    unfold callBound at h
    cases hbound : boundFunction setting.catalog binding args.length with
    | error e =>
      rw [hbound] at h
      cases h
      exact .inl rfl
    | ok f =>
      rw [hbound] at h
      cases h
      exact .inr ⟨binding, f, hbinding, hbound, rfl⟩

/-- An instruction leaves the host alone, unless it calls a host function. -/
theorem Acts.host_cases {state : State σ} {op : Op} {result : Effect σ}
    (hop : state.frame.chunk.ops[state.frame.ip]? = some op)
    (h : Acts setting (advance state.frame) state.world op result) :
    result.world.host = state.world.host ∨
      ∃ call, CallsHost setting state call ∧ result.world.host = call.act state.world.host := by
  cases h with
  | host operands called | noHost operands called =>
    refine (callHost_host called).imp_right ?_
    rintro ⟨binding, f, hbinding, hfound, hafter⟩
    exact ⟨⟨binding, f, _⟩, .mk hop operands hbinding hfound, hafter⟩
  | _ => exact .inl rfl

/-- A step leaves the host alone, unless it calls a host function. -/
theorem step_host (setting : Setting σ) (state : State σ) :
    (step setting state).world.host = state.world.host ∨
      ∃ call, CallsHost setting state call ∧
        (step setting state).world.host = call.act state.world.host := by
  cases stepped setting state with
  | off _ steps =>
    rw [steps, finish_world]
    exact .inl rfl
  | limited _ _ steps | full _ _ steps =>
    rw [steps]
    exact .inl rfl
  | acts opAt _ acted steps =>
    rw [steps, Effect.outcome_world]
    exact acted.host_cases opAt

/-! ## Runs -/

/-- The step of a state changes the host by a call that the state comes to, if at all. -/
theorem leads_step {made : HostCall σ → Prop} {state : State σ}
    (hmade : ∀ call, CallsHost setting state call → made call) :
    HostCall.Leads made state.world.host (step setting state).world.host := by
  obtain hsame | ⟨call, hcall, hact⟩ := step_host setting state
  · rw [hsame]
  · exact .single ⟨call, hmade call hcall, hact⟩

/-- Steps change the host by the calls that they come to. -/
theorem Steps.host {made : HostCall σ → Prop} {count : Nat} {first last : State σ}
    (h : Steps setting count first last)
    (hmade : ∀ count state call, Steps setting count first state → CallsHost setting state call →
      made call) : HostCall.Leads made first.world.host last.world.host := by
  induction h with
  | refl => exact .refl
  | head hstep _ ih =>
    have hfirst := leads_step fun call => hmade 0 _ call .refl
    rw [hstep] at hfirst
    exact hfirst.trans (ih fun count state call hsteps => hmade (count + 1) state call
      (.head hstep hsteps))

/-- A run changes the host by the calls that it comes to. -/
theorem run_host {made : HostCall σ → Prop} {fuel : Nat} {first : State σ} {ending : Ending σ}
    (h : run setting fuel first = some ending)
    (hmade : ∀ count state call, Steps setting count first state → CallsHost setting state call →
      made call) : HostCall.Leads made first.world.host ending.world.host := by
  obtain ⟨count, last, hsteps, hend⟩ := run_ends h
  have hlast := leads_step fun call => hmade count last call hsteps
  rw [hend] at hlast
  exact (hsteps.host hmade).trans hlast

/-! ## Dead bindings -/

/-- Where code calls a function of a module that is no longer loaded, the run ends. -/
theorem step_of_unloaded {state : State σ} {id argc : Nat} {binding : HostBinding}
    (hop : state.frame.chunk.ops[state.frame.ip]? = some (.callHost id argc))
    (hbinding : setting.program.bindings[id]? = some binding)
    (hdead : binding.handle.bind setting.catalog.live? = none)
    (henough : argc ≤ state.frame.stack.length) :
    ∃ e, step setting state =
        fault e (state.frame :: state.callers) (state.executed + 1) state.world ∧
      (e = .moduleUnloaded binding.moduleName binding.functionName ∨ e = .stackOverflow ∨
        ∃ limit, e = .instructionLimit limit) := by
  have hcall : ∀ args host, callHost setting id args host =
      (.error (.moduleUnloaded binding.moduleName binding.functionName), host) := by
    intro args host
    simp only [callHost, hbinding, callBound, boundFunction, hdead]
  cases stepped setting state with
  | off noOp _ =>
    rw [noOp] at hop
    cases hop
  | limited _ _ steps => exact ⟨_, steps, .inr (.inr ⟨_, rfl⟩)⟩
  | full _ _ steps => exact ⟨_, steps, .inr (.inl rfl)⟩
  | acts opAt _ acted steps =>
    rw [opAt, Option.some.injEq] at hop
    subst hop
    cases acted with
    | host _ called =>
      rw [hcall] at called
      cases called
    | noHost _ called =>
      rw [hcall] at called
      cases called
      exact ⟨_, steps, .inl rfl⟩
    | underflow few => exact absurd few (Nat.not_lt.mpr henough)
    | load loads => cases loads
    | unary operator | binary operator | noUnary operator | noBinary operator => cases operator
    | unnamed names => cases names

/-! ## The calls of host functions in a run

Which host functions a run calls, with which arguments and in which order. The list is all that
becomes of the state of the host: `run_hostCalls`. -/

/-- The call of a host function behind a binding, if there is a function for so many arguments. -/
def hostCall? (setting : Setting σ) (id : Nat) (args : List Value) : Option (HostCall σ) :=
  match setting.program.bindings[id]? with
  | none => none
  | some binding =>
    match boundFunction setting.catalog binding args.length with
    | .ok f => some ⟨binding, f, args⟩
    | .error _ => none

/-- The call of a host function that an instruction makes of a frame. -/
def opCall? (setting : Setting σ) (frame : Frame) : Op → Option (HostCall σ)
  | .callHost id argc =>
    match frame.popArgs argc with
    | .ok (args, _) => Machine.hostCall? setting id args
    | .error _ => none
  | _ => none

/-- The call of a host function that the next step makes. -/
def State.hostCall? (setting : Setting σ) (state : State σ) : Option (HostCall σ) :=
  match state.frame.chunk.ops[state.frame.ip]? with
  | none => none
  | some op =>
    if (exceeded? setting.limit (state.executed + 1)).isSome ∨ maxStack ≤ state.frame.stack.length
    then none
    else opCall? setting (advance state.frame) op

/-- The calls of host functions that a run makes with so much fuel, in order. -/
def hostCalls (setting : Setting σ) : Nat → State σ → List (HostCall σ)
  | 0, _ => []
  | fuel + 1, state =>
    (state.hostCall? setting).toList ++
      match step setting state with
      | .running next => hostCalls setting fuel next
      | .ended _ => []

/-- The host after some calls. -/
def HostCall.actAll (calls : List (HostCall σ)) (host : σ) : σ :=
  calls.foldl (fun host call => call.act host) host

theorem callHost_hostCall? (id : Nat) (args : List Value) (host : σ) :
    (callHost setting id args host).2 = HostCall.actAll (hostCall? setting id args).toList host := by
  unfold callHost hostCall?
  cases setting.program.bindings[id]? with
  | none => rfl
  | some binding =>
    dsimp only
    unfold callBound
    cases boundFunction setting.catalog binding args.length <;> rfl

/-- An instruction does to the host what its call does. -/
theorem Acts.hostCall? {frame : Frame} {world : World σ} {op : Op} {result : Effect σ}
    (h : Acts setting frame world op result) :
    result.world.host = HostCall.actAll (opCall? setting frame op).toList world.host := by
  have hcalled {id : Nat} {args rest : List Value} {outcome : Except Fault Value} {after : σ}
      (hstack : frame.stack = args.reverse ++ rest)
      (hcall : callHost setting id args world.host = (outcome, after)) :
      after = HostCall.actAll (opCall? setting frame (.callHost id args.length)).toList
        world.host := by
    have hargs : frame.popArgs args.length = .ok (args, { frame with stack := rest }) := by
      unfold Frame.popArgs
      rw [hstack, if_pos (by simp)]
      simp
    have hafter : (callHost setting id args world.host).2 =
        HostCall.actAll (Machine.hostCall? setting id args).toList world.host :=
      callHost_hostCall? id args world.host
    rw [hcall] at hafter
    simp only [opCall?, hargs]
    exact hafter
  cases h with
  | host operands called | noHost operands called => exact hcalled operands called
  | load loads => cases op <;> first | rfl | cases loads
  | unary operator _ _ | noUnary operator _ _ => cases op <;> first | rfl | cases operator
  | binary operator _ _ | noBinary operator _ _ => cases op <;> first | rfl | cases operator
  | unnamed names _ => cases op <;> first | rfl | cases names
  | underflow few =>
    cases op with
    | callHost id argc =>
      have hnone : frame.popArgs argc = .error .stackUnderflow := if_neg (Nat.not_le.mpr few)
      simp only [opCall?, hnone]
      rfl
    | _ => rfl
  | _ => rfl

/-- A step does to the host what its call does. -/
theorem step_hostCall? (setting : Setting σ) (state : State σ) :
    (step setting state).world.host =
      HostCall.actAll (state.hostCall? setting).toList state.world.host := by
  obtain ⟨frame, callers, executed, world⟩ := state
  unfold State.hostCall?
  dsimp only
  cases hop : frame.chunk.ops[frame.ip]? with
  | none =>
    simp only [step, hop]
    rw [finish_world]
    rfl
  | some op =>
    simp only [step, hop, instruction]
    cases exceeded? setting.limit (executed + 1) with
    | some limit => rfl
    | none =>
      by_cases hfull : maxStack ≤ frame.stack.length
      · simp only [if_pos hfull]
        rw [if_pos (.inr hfull)]
        rfl
      · have hacts := effect_acts setting (advance frame) world op
        simp only [if_neg hfull]
        rw [if_neg (by simp [hfull]), ← hacts.hostCall?]
        rw [← Effect.outcome_world (effect setting (advance frame) world op) setting.program frame
          callers (executed + 1)]
        unfold advance
        cases effect setting { frame with ip := frame.ip + 1 } world op <;> rfl

/-- A run does to the host what its calls do, one after the other. -/
theorem run_hostCalls {fuel : Nat} {state : State σ} {ending : Ending σ}
    (h : run setting fuel state = some ending) :
    ending.world.host = HostCall.actAll (hostCalls setting fuel state) state.world.host := by
  induction fuel generalizing state with
  | zero => cases h
  | succ fuel ih =>
    have hstep := step_hostCall? setting state
    rw [run] at h
    unfold HostCall.actAll at hstep ⊢
    rw [hostCalls, List.foldl_append, ← hstep]
    cases hrun : step setting state with
    | ended result =>
      rw [hrun] at h
      cases h
      rfl
    | running next =>
      rw [hrun] at h
      exact ih h

end ScriptHost.Machine
