import Mathlib.Algebra.GroupWithZero.Nat
import ScriptHost.Proofs.Machine.HostCalls
import ScriptHost.Proofs.Machine.Steps
/-!
# Instructions that a run dispatches

A run with an instruction limit is a run without one, cut off before it dispatches one instruction
too many. It always ends: a step that dispatches no instruction takes a frame away or makes a
constructor of an initialiser, and there are only so many of these to do in a row.

The main statement is `cuts`.
-/

set_option autoImplicit false

namespace ScriptHost

/-- In how many steps a frame can be handled that dispatch no instruction. -/
def Resume.turns : Resume → Nat
  | .construct _ (some _) => 2
  | _ => 1

namespace Machine

variable {σ : Type} {setting : Setting σ}

/-! ## The instructions of a run -/

/-- The next step dispatches an instruction: the frame has one, and the limit leaves room for it. -/
def State.dispatches (setting : Setting σ) (state : State σ) : Bool :=
  state.frame.chunk.ops[state.frame.ip]?.isSome &&
    (exceeded? setting.limit (state.executed + 1)).isNone

/-- The states in which a run dispatches an instruction, in the order in which it comes to them, with
so much fuel. -/
def dispatched (setting : Setting σ) : Nat → State σ → List (State σ)
  | 0, _ => []
  | fuel + 1, state =>
    (if state.dispatches setting then [state] else []) ++
      match step setting state with
      | .running next => dispatched setting fuel next
      | .ended _ => []

/-- Without a limit an instruction is dispatched wherever there is one. -/
theorem dispatches_unlimited (setting : Setting σ) (state : State σ) :
    state.dispatches setting.unlimited = state.frame.chunk.ops[state.frame.ip]?.isSome := by
  simp [State.dispatches, Setting.unlimited, exceeded?]

/-- Only a state that dispatches an instruction calls a host function. -/
theorem hostCall?_eq_none {state : State σ} (h : state.dispatches setting = false) :
    state.hostCall? setting = none := by
  unfold State.hostCall?
  cases hop : state.frame.chunk.ops[state.frame.ip]? with
  | none => rfl
  | some op =>
    have hexceeded : (exceeded? setting.limit (state.executed + 1)).isSome := by
      simpa [State.dispatches, hop, Option.isSome_iff_ne_none] using h
    exact if_pos (.inl hexceeded)

/-- The calls of host functions in a run are those that its instructions make. -/
theorem hostCalls_eq_filterMap (fuel : Nat) (state : State σ) :
    hostCalls setting fuel state =
      (dispatched setting fuel state).filterMap (State.hostCall? setting) := by
  induction fuel generalizing state with
  | zero => rfl
  | succ fuel ih =>
    have hfirst : (state.hostCall? setting).toList =
        (if state.dispatches setting then [state] else []).filterMap
          (State.hostCall? setting) := by
      cases hdispatches : state.dispatches setting with
      | false => simp [hostCall?_eq_none hdispatches]
      | true => cases hcall : state.hostCall? setting <;> simp [hcall]
    rw [hostCalls, dispatched, List.filterMap_append, ← hfirst]
    cases step setting state with
    | running next => simp [ih]
    | ended ending => simp

/-! ## What is counted -/

/-- The number of instructions carried out after a step. -/
def Outcome.executed : Outcome σ → Nat
  | .running state => state.executed
  | .ended ending => ending.executed

theorem pushFrame_executed (callee : Frame) (frames : List Frame) (executed : Nat)
    (world : World σ) : (pushFrame callee frames executed world).executed = executed := by
  unfold pushFrame
  split <;> rfl

theorem deliver_executed (value : Value) (callers : List Frame) (executed : Nat)
    (world : World σ) : (deliver value callers executed world).executed = executed := by
  cases callers <;> rfl

theorem finish_executed (program : Program) (resume : Resume) (value : Value)
    (callers : List Frame) (executed : Nat) (world : World σ) :
    (finish program resume value callers executed world).executed = executed := by
  unfold finish
  split
  · apply deliver_executed
  · apply deliver_executed
  · apply deliver_executed
  · split
    · rfl
    · apply pushFrame_executed

theorem Effect.outcome_executed (result : Effect σ) (program : Program) (frame : Frame)
    (callers : List Frame) (executed : Nat) :
    (result.outcome program frame callers executed).executed = executed := by
  cases result with
  | next _ _ | fault _ _ => rfl
  | enter _ _ _ => apply pushFrame_executed
  | ret _ _ => apply finish_executed

/-- A step counts the instruction that it comes to, if there is one. -/
theorem step_executed (setting : Setting σ) (state : State σ) :
    (step setting state).executed =
      state.executed + if state.frame.chunk.ops[state.frame.ip]?.isSome then 1 else 0 := by
  cases stepped setting state with
  | off noOp steps =>
    rw [steps, finish_executed, noOp]
    rfl
  | limited opAt _ steps | full opAt _ steps =>
    rw [steps, opAt]
    rfl
  | acts opAt _ _ steps =>
    rw [steps, Effect.outcome_executed, opAt]
    rfl

theorem step_executed_unlimited (setting : Setting σ) (state : State σ) :
    (step setting.unlimited state).executed =
      state.executed + if state.dispatches setting.unlimited then 1 else 0 := by
  rw [step_executed, dispatches_unlimited]

/-- The count of a run without a limit is the number of instructions that it dispatches. -/
theorem executed_eq {fuel : Nat} {state : State σ} {ending : Ending σ}
    (h : run setting.unlimited fuel state = some ending) :
    ending.executed = state.executed + (dispatched setting.unlimited fuel state).length := by
  induction fuel generalizing state with
  | zero => cases h
  | succ fuel ih =>
    have hexecuted := step_executed_unlimited setting state
    rw [run] at h
    rw [dispatched, List.length_append]
    cases hstep : step setting.unlimited state with
    | ended result =>
      rw [hstep] at h hexecuted
      cases h
      replace hexecuted : ending.executed = _ := hexecuted
      rw [hexecuted]
      split <;> rfl
    | running next =>
      rw [hstep] at h hexecuted
      have hrest := ih h
      replace hexecuted : next.executed = _ := hexecuted
      rw [hrest, hexecuted, Nat.add_assoc]
      split <;> rfl

/-! ## The limit -/

theorem exceeded?_of_le {limit executed : Nat} (h : executed ≤ limit) :
    exceeded? (some limit) executed = none := by
  simp [exceeded?, h]

theorem exceeded?_of_lt {limit executed : Nat} (h : limit < executed) :
    exceeded? (some limit) executed = some limit := by
  simp [exceeded?, h]

variable {limit : Nat}

/-- Below the limit a state dispatches an instruction wherever there is one. -/
theorem dispatches_of_lt (hlimit : setting.limit = some limit) {state : State σ}
    (h : state.executed < limit) : state.dispatches setting = state.dispatches setting.unlimited := by
  rw [dispatches_unlimited]
  simp [State.dispatches, hlimit, exceeded?_of_le (Nat.succ_le_of_lt h)]

/-- At the limit a state dispatches nothing. -/
theorem dispatches_of_ge (hlimit : setting.limit = some limit) {state : State σ}
    (h : limit ≤ state.executed) : state.dispatches setting = false := by
  simp [State.dispatches, hlimit, exceeded?_of_lt (Nat.lt_succ_of_le h)]

/-- Below the limit a call of a host function is made as without one. -/
theorem hostCall?_of_lt (hlimit : setting.limit = some limit) {state : State σ}
    (h : state.executed < limit) : state.hostCall? setting = state.hostCall? setting.unlimited := by
  have hnone := exceeded?_of_le (Nat.succ_le_of_lt h)
  have hcall (op : Op) : opCall? setting.unlimited (advance state.frame) op =
      opCall? setting (advance state.frame) op := by cases op <;> rfl
  unfold State.hostCall?
  simp only [hlimit, hnone, hcall]
  rfl

/-- Where no instruction is refused, a step is one without a limit. -/
theorem step_eq_unlimited (hlimit : setting.limit = some limit) {state : State σ}
    (h : state.executed < limit ∨ state.dispatches setting.unlimited = false) :
    step setting state = step setting.unlimited state := by
  rw [dispatches_unlimited] at h
  obtain ⟨frame, callers, executed, world⟩ := state
  cases hop : frame.chunk.ops[frame.ip]? with
  | none =>
    simp only [step, hop]
    rfl
  | some op =>
    have hlt : executed < limit := by simpa [hop] using h
    have hnone : exceeded? setting.limit (executed + 1) = none := by
      rw [hlimit]
      exact exceeded?_of_le (Nat.succ_le_of_lt hlt)
    have hnone' : exceeded? setting.unlimited.limit (executed + 1) = none := rfl
    simp only [step, hop, instruction, hnone, hnone', effect_unlimited]
    rfl

/-- How a run ends that the limit stops in a state. -/
def State.stopped (state : State σ) (limit : Nat) : Ending σ :=
  ⟨.error ⟨.instructionLimit limit, traceOf (state.frame :: state.callers)⟩, state.executed + 1,
    state.world⟩

/-- At the limit an instruction is refused. -/
theorem step_refused (hlimit : setting.limit = some limit) {state : State σ}
    (h : limit ≤ state.executed) (hdispatches : state.dispatches setting.unlimited = true) :
    step setting state = .ended (state.stopped limit) := by
  rw [dispatches_unlimited] at hdispatches
  obtain ⟨op, hop⟩ := Option.isSome_iff_exists.mp hdispatches
  have hexceeded := exceeded?_of_lt (Nat.lt_succ_of_le h)
  obtain ⟨frame, callers, executed, world⟩ := state
  dsimp only at hop hexceeded
  simp only [step, hop, instruction, hlimit, hexceeded]
  rfl

/-- The first instructions of a run without a limit are those that it dispatches with one. -/
theorem dispatched_eq_take (hlimit : setting.limit = some limit) (fuel : Nat) {state : State σ}
    (h : state.executed ≤ limit) :
    dispatched setting fuel state =
      (dispatched setting.unlimited fuel state).take (limit - state.executed) := by
  induction fuel generalizing state with
  | zero => simp [dispatched]
  | succ fuel ih =>
    have hexecuted := step_executed_unlimited setting state
    rw [dispatched, dispatched]
    cases hdispatches : state.dispatches setting.unlimited with
    | false =>
      have hstep := step_eq_unlimited hlimit (.inr hdispatches)
      have hnone : state.dispatches setting = false := by
        rw [dispatches_unlimited] at hdispatches
        simp [State.dispatches, hdispatches]
      rw [hstep, hnone]
      cases hnext : step setting.unlimited state with
      | ended ending => simp
      | running next =>
        rw [hnext, hdispatches] at hexecuted
        replace hexecuted : next.executed = state.executed := hexecuted
        simp [ih (hexecuted ▸ h), hexecuted]
    | true =>
      obtain hlt | hge := Nat.lt_or_ge state.executed limit
      · have hstep := step_eq_unlimited hlimit (.inl hlt)
        obtain ⟨room, hroom⟩ : ∃ room, limit - state.executed = room + 1 :=
          ⟨limit - state.executed - 1, by omega⟩
        rw [hstep, dispatches_of_lt hlimit hlt, hdispatches, hroom]
        cases hnext : step setting.unlimited state with
        | ended ending => simp
        | running next =>
          rw [hnext, hdispatches] at hexecuted
          replace hexecuted : next.executed = state.executed + 1 := hexecuted
          have hle : next.executed ≤ limit := by omega
          have hrest := ih hle
          rw [show limit - next.executed = room by omega] at hrest
          simp [hrest]
      · have hroom : limit - state.executed = 0 := by omega
        rw [step_refused hlimit hge hdispatches, dispatches_of_ge hlimit hge, hroom]
        simp

/-- The count never goes past the limit in a run. -/
theorem executed_le_of_mem (hlimit : setting.limit = some limit) {fuel : Nat} {state other : State σ}
    (h : other ∈ dispatched setting fuel state) : other.executed < limit := by
  induction fuel generalizing state with
  | zero => cases h
  | succ fuel ih =>
    rw [dispatched, List.mem_append] at h
    obtain h | h := h
    · obtain hlt | hge := Nat.lt_or_ge state.executed limit
      · split at h
        · obtain rfl := List.mem_singleton.mp h
          exact hlt
        · cases h
      · simp [dispatches_of_ge hlimit hge] at h
    · split at h
      · exact ih h
      · cases h

/-- The calls of host functions in a run with a limit are those of the first instructions. -/
theorem hostCalls_eq_take (hlimit : setting.limit = some limit) (fuel : Nat) {state : State σ}
    (h : state.executed ≤ limit) :
    hostCalls setting fuel state =
      ((dispatched setting.unlimited fuel state).take (limit - state.executed)).filterMap
        (State.hostCall? setting.unlimited) := by
  rw [hostCalls_eq_filterMap, ← dispatched_eq_take hlimit fuel h]
  apply List.filterMap_congr
  intro other hother
  exact hostCall?_of_lt hlimit (executed_le_of_mem hlimit hother)

/-! ## Every run ends -/

/-- In how many steps frames can be handled that dispatch no instruction. -/
def turns (frames : List Frame) : Nat :=
  (frames.map (·.resume.turns)).sum

theorem turns_cons (frame : Frame) (frames : List Frame) :
    turns (frame :: frames) = frame.resume.turns + turns frames := by
  simp [turns]

/-- What is left of the stack. -/
def State.turns (state : State σ) : Nat :=
  Machine.turns (state.frame :: state.callers)

theorem deliver_turns {value : Value} {callers : List Frame} {executed : Nat} {world : World σ}
    {next : State σ} (h : deliver value callers executed world = .running next) :
    next.turns = Machine.turns callers := by
  cases callers with
  | nil => cases h
  | cons caller rest =>
    cases h
    rfl

/-- To hand over a value leaves less to do. -/
theorem finish_turns {program : Program} {resume : Resume} {value : Value} {callers : List Frame}
    {executed : Nat} {world : World σ} {next : State σ}
    (h : finish program resume value callers executed world = .running next) :
    next.turns < resume.turns + Machine.turns callers := by
  unfold finish at h
  split at h
  · simp [deliver_turns h, Resume.turns]
  · simp [deliver_turns h, Resume.turns]
  · simp [deliver_turns h, Resume.turns]
  · rename_i object id args
    cases henter : enter program id (some object) args (.object object) with
    | error e =>
      simp only [henter] at h
      cases h
    | ok callee =>
      -- the initialiser makes room for the constructor, which counts less
      have hresume : callee.resume = .object object := by
        unfold enter at henter
        split at henter
        · cases henter
        · split at henter
          · cases henter
            rfl
          · cases henter
      simp only [henter] at h
      unfold pushFrame at h
      split at h
      · cases h
      · cases h
        rw [State.turns, turns_cons, hresume]
        simp [Resume.turns]

/-- A step that dispatches no instruction leaves less to do. -/
theorem step_turns {state next : State σ}
    (hop : state.frame.chunk.ops[state.frame.ip]? = none)
    (h : step setting state = .running next) : next.turns < state.turns := by
  rw [State.turns.eq_def state, turns_cons]
  cases stepped setting state with
  | off _ steps =>
    rw [steps] at h
    exact finish_turns h
  | limited opAt _ _ | full opAt _ _ | acts opAt _ _ _ =>
    rw [hop] at opAt
    cases opAt

/-- A run with a limit ends, whatever the code. -/
theorem run_terminates (hlimit : setting.limit = some limit) (state : State σ) :
    ∃ fuel ending, run setting fuel state = some ending := by
  -- first by the instructions that are left, then by what is left of the stack
  induction hroom : limit - state.executed using Nat.strongRecOn generalizing state with
  | _ room ihRoom =>
    induction hturns : state.turns using Nat.strongRecOn generalizing state with
    | _ left ihTurns =>
      cases hnext : step setting state with
      | ended ending => exact ⟨1, ending, by rw [run, hnext]⟩
      | running next =>
        have hexecuted := step_executed setting state
        rw [hnext] at hexecuted
        dsimp only [Outcome.executed] at hexecuted
        suffices hends : ∃ fuel ending, run setting fuel next = some ending by
          obtain ⟨fuel, ending, hrun⟩ := hends
          exact ⟨fuel + 1, ending, by rw [run, hnext]; exact hrun⟩
        cases hop : state.frame.chunk.ops[state.frame.ip]? with
        | none =>
          have hsame : next.executed = state.executed := by simpa [hop] using hexecuted
          have hless := step_turns hop hnext
          exact ihTurns next.turns (hturns ▸ hless) next (by omega) rfl
        | some op =>
          have hone : next.executed = state.executed + 1 := by simpa [hop] using hexecuted
          obtain hlt | hge := Nat.lt_or_ge state.executed limit
          · exact ihRoom (limit - next.executed) (by omega) next rfl
          · have hdispatches : state.dispatches setting.unlimited = true := by
              simp [dispatches_unlimited, hop]
            rw [step_refused hlimit hge hdispatches] at hnext
            cases hnext

/-! ## The cutoff -/

/-- A limit cuts off the run from a state, and does nothing else to it. -/
structure Cuts (setting : Setting σ) (limit : Nat) (start : State σ) : Prop where
  /-- With the limit the run ends. -/
  ends : ∃ fuel ending, run setting fuel start = some ending
  /-- It dispatches the first instructions of the run without the limit, in the same states. -/
  dispatches : ∀ fuel,
    dispatched setting fuel start = (dispatched setting.unlimited fuel start).take limit
  /-- It makes the calls of host functions of these instructions. -/
  calls : ∀ fuel, hostCalls setting fuel start =
    ((dispatched setting.unlimited fuel start).take limit).filterMap
      (State.hostCall? setting.unlimited)
  /-- If no more instructions are needed without the limit, the run ends in the same way. -/
  within : ∀ fuel ending, run setting.unlimited fuel start = some ending →
    (dispatched setting.unlimited fuel start).length ≤ limit →
      run setting fuel start = some ending ∧
        hostCalls setting fuel start = hostCalls setting.unlimited fuel start
  /-- If more are needed, the limit stops the run in the state to which the instructions that it
  allows have led, where the next one would be dispatched. -/
  beyond : (∀ fuel ending, run setting.unlimited fuel start = some ending →
      limit < (dispatched setting.unlimited fuel start).length) →
    ∃ count last, Steps setting.unlimited count start last ∧
      (dispatched setting.unlimited count start).length = limit ∧
      last.dispatches setting.unlimited = true ∧
      run setting (count + 1) start = some (last.stopped limit) ∧
      hostCalls setting (count + 1) start = hostCalls setting.unlimited count start

/-- What is dispatched on the way, and then. -/
theorem Steps.dispatched_add {count : Nat} {first last : State σ}
    (h : Steps setting count first last) (fuel : Nat) :
    dispatched setting (count + fuel) first =
      dispatched setting count first ++ dispatched setting fuel last := by
  induction h with
  | refl => simp [dispatched]
  | @head count first second last step _ ih =>
    rw [Nat.add_right_comm, dispatched, dispatched, step]
    dsimp only
    rw [ih, List.append_assoc]

/-- Steps without a limit count the instructions that are dispatched on the way. -/
theorem Steps.executed {count : Nat} {first last : State σ}
    (h : Steps setting.unlimited count first last) :
    last.executed = first.executed + (dispatched setting.unlimited count first).length := by
  induction h with
  | refl => rfl
  | @head count first second last step _ ih =>
    have hexecuted := step_executed_unlimited setting first
    rw [step] at hexecuted
    replace hexecuted : second.executed = _ := hexecuted
    rw [ih, hexecuted, dispatched, step, List.length_append, Nat.add_assoc]
    split <;> rfl

/-- Steps with a limit are steps without one, and keep to the limit. -/
theorem Steps.without (hlimit : setting.limit = some limit) {count : Nat} {first last : State σ}
    (h : Steps setting count first last) (hfirst : first.executed ≤ limit) :
    Steps setting.unlimited count first last ∧ last.executed ≤ limit := by
  induction h with
  | refl => exact ⟨.refl, hfirst⟩
  | @head count first second last step _ ih =>
    have hgoes : first.executed < limit ∨ first.dispatches setting.unlimited = false := by
      by_contra hstops
      obtain ⟨hge, hdispatches⟩ := not_or.mp hstops
      rw [step_refused hlimit (Nat.le_of_not_lt hge) (Bool.not_eq_false _ ▸ hdispatches)] at step
      cases step
    rw [step_eq_unlimited hlimit hgoes] at step
    have hexecuted := step_executed_unlimited setting first
    rw [step] at hexecuted
    replace hexecuted : second.executed = _ := hexecuted
    have hsecond : second.executed ≤ limit := by
      obtain hlt | hnone := hgoes
      · rw [hexecuted]
        split <;> omega
      · simpa [hexecuted, hnone] using hfirst
    obtain ⟨hsteps, hlast⟩ := ih hsecond
    exact ⟨.head step hsteps, hlast⟩

/-- A run that needs no more instructions than the limit allows is not changed by it. -/
theorem run_within (hlimit : setting.limit = some limit) {fuel : Nat} {state : State σ}
    {ending : Ending σ} (h : run setting.unlimited fuel state = some ending)
    (hfew : state.executed + (dispatched setting.unlimited fuel state).length ≤ limit) :
    run setting fuel state = some ending := by
  induction fuel generalizing state with
  | zero => cases h
  | succ fuel ih =>
    rw [run] at h ⊢
    rw [dispatched, List.length_append] at hfew
    have hexecuted := step_executed_unlimited setting state
    have hgoes : state.executed < limit ∨ state.dispatches setting.unlimited = false := by
      cases hdispatches : state.dispatches setting.unlimited with
      | false => exact .inr rfl
      | true =>
        rw [hdispatches, if_pos rfl, List.length_singleton] at hfew
        left
        omega
    rw [step_eq_unlimited hlimit hgoes]
    cases hnext : step setting.unlimited state with
    | ended result =>
      rw [hnext] at h
      exact h
    | running next =>
      rw [hnext] at h hfew hexecuted
      replace hexecuted : next.executed = _ := hexecuted
      apply ih h
      rw [hexecuted, Nat.add_assoc]
      refine Nat.le_trans (Nat.le_of_eq ?_) hfew
      split <;> rfl

/-- Whatever the code, an instruction limit cuts off runs and does nothing else to them. -/
theorem cuts (hlimit : setting.limit = some limit) {start : State σ} (hstart : start.executed = 0) :
    Cuts setting limit start := by
  have hle : start.executed ≤ limit := by omega
  have hroom : limit - start.executed = limit := by omega
  have hends := run_terminates hlimit start
  have hcalls (fuel : Nat) := hostCalls_eq_take hlimit fuel hle
  rw [hroom] at hcalls
  refine ⟨hends, fun fuel => ?_, hcalls, fun fuel ending hrun hfew => ⟨?_, ?_⟩, fun hmore => ?_⟩
  · rw [dispatched_eq_take hlimit fuel hle, hroom]
  · exact run_within hlimit hrun (by omega)
  · rw [hcalls, List.take_of_length_le hfew, hostCalls_eq_filterMap]
  · obtain ⟨fuel, ending, hrun⟩ := hends
    obtain ⟨count, last, hsteps, hlast⟩ := run_ends hrun
    obtain ⟨hsteps', hexecuted⟩ := hsteps.without hlimit hle
    have hcount := hsteps'.executed
    rw [hstart, Nat.zero_add] at hcount
    -- a step that is not refused would end the run without the limit as well
    have hrefused : limit ≤ last.executed ∧ last.dispatches setting.unlimited = true := by
      by_contra hgoes
      have hgoes : last.executed < limit ∨ last.dispatches setting.unlimited = false := by
        simpa [Classical.or_iff_not_imp_left] using hgoes
      rw [step_eq_unlimited hlimit hgoes] at hlast
      have hrun' : run setting.unlimited (count + 1) start = some ending := by
        rw [hsteps'.run_eq, run, hlast]
      have hlength := hmore _ _ hrun'
      rw [hsteps'.dispatched_add, List.length_append, dispatched, hlast, List.append_nil] at hlength
      obtain hlt | hnone := hgoes
      · have hone : (if last.dispatches setting.unlimited then [last] else []).length ≤ 1 := by
          split <;> simp
        omega
      · rw [hnone, if_neg Bool.false_ne_true, List.length_nil] at hlength
        omega
    obtain ⟨hge, hdispatches⟩ := hrefused
    have hlength : (dispatched setting.unlimited count start).length = limit := by omega
    refine ⟨count, last, hsteps', hlength, hdispatches, ?_, ?_⟩
    · rw [hsteps.run_eq, run, step_refused hlimit hge hdispatches]
    · rw [hcalls, hsteps'.dispatched_add, ← hlength, List.take_left, hostCalls_eq_filterMap]

end Machine

end ScriptHost
