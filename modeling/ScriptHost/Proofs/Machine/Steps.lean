import ScriptHost.Machine.Basic
/-!
# Steps of the machine

Runs as chains of steps. What a run comes to does not depend on how much fuel is left over, and a
run that has not ended with some fuel has not ended with less.
-/

set_option autoImplicit false

namespace ScriptHost.Machine

variable {σ : Type} {setting : Setting σ}

/-- So many steps lead from one state to another. -/
inductive Steps (setting : Setting σ) : Nat → State σ → State σ → Prop
  | refl {state : State σ} : Steps setting 0 state state
  | head {count : Nat} {first second last : State σ} (step : step setting first = .running second)
      (rest : Steps setting count second last) : Steps setting (count + 1) first last

/-- Steps after steps. -/
theorem Steps.trans {m n : Nat} {a b c : State σ} (hab : Steps setting m a b)
    (hbc : Steps setting n b c) : Steps setting (m + n) a c := by
  induction hab with
  | refl => simpa using hbc
  | head hstep _ ih =>
    rw [Nat.add_right_comm]
    exact .head hstep (ih hbc)

/-- A run goes on from where its steps lead. -/
theorem Steps.run_eq {n : Nat} {a b : State σ} (hab : Steps setting n a b) (fuel : Nat) :
    run setting (n + fuel) a = run setting fuel b := by
  induction hab with
  | refl => rw [Nat.zero_add]
  | @head count _ _ _ hstep _ ih =>
    rw [Nat.add_right_comm, run, hstep]
    exact ih

/-- A run that ends does so with the step after its last state. -/
theorem run_ends {fuel : Nat} {first : State σ} {ending : Ending σ}
    (h : run setting fuel first = some ending) :
    ∃ count last, Steps setting count first last ∧ step setting last = .ended ending := by
  induction fuel generalizing first with
  | zero => cases h
  | succ fuel ih =>
    rw [run] at h
    cases hstep : step setting first with
    | ended result =>
      rw [hstep] at h
      cases h
      exact ⟨0, first, .refl, hstep⟩
    | running next =>
      rw [hstep] at h
      obtain ⟨count, last, hsteps, hend⟩ := ih h
      exact ⟨count + 1, last, .head hstep hsteps, hend⟩

/-- A run that has ended does so with more fuel as well. -/
theorem run_add {fuel : Nat} {state : State σ} {ending : Ending σ}
    (h : run setting fuel state = some ending) (more : Nat) :
    run setting (fuel + more) state = some ending := by
  induction fuel generalizing state with
  | zero => simp [run] at h
  | succ fuel ih =>
    rw [Nat.add_right_comm, run]
    rw [run] at h
    cases hstep : step setting state with
    | ended result => simpa [hstep] using h
    | running next =>
      simp only [hstep] at h ⊢
      exact ih h

/-- Two runs from one state end alike. -/
theorem run_unique {m n : Nat} {state : State σ} {first second : Ending σ}
    (hm : run setting m state = some first) (hn : run setting n state = some second) :
    first = second := by
  have h := run_add hm n
  rw [Nat.add_comm, run_add hn m] at h
  exact (Option.some.inj h).symm

/-- A run that has not ended with some fuel has not ended with less. -/
theorem run_eq_none_of_le {small large : Nat} {state : State σ} (hle : small ≤ large)
    (h : run setting large state = none) : run setting small state = none := by
  cases hsmall : run setting small state with
  | none => rfl
  | some ending =>
    have := run_add hsmall (large - small)
    rw [Nat.add_sub_cancel' hle, h] at this
    cases this

/-- A run that has not ended somewhere had not ended so many steps before, with as much more
fuel. -/
theorem Steps.run_eq_none {n fuel : Nat} {a b : State σ} (hab : Steps setting n a b)
    (h : run setting fuel b = none) : run setting (n + fuel) a = none := by
  rw [hab.run_eq]
  exact h

end ScriptHost.Machine

/-! ## Runs with and without an instruction limit

A limit on the number of instructions does nothing to a run but cut it off: every step is the step
of a machine without a limit, until the limit stops the run. -/

namespace ScriptHost.Machine

variable {σ : Type}

/-- The same setting without an instruction limit. -/
def Setting.unlimited (setting : Setting σ) : Setting σ :=
  { setting with limit := none }

/-- The instruction limit stopped the run. -/
def Ending.CutOff (ending : Ending σ) : Prop :=
  ∃ limit trace, ending.result = .error ⟨.instructionLimit limit, trace⟩

/-- What an instruction does has nothing to do with the limit. -/
theorem effect_unlimited (setting : Setting σ) (frame : Frame) (world : World σ) (op : Op) :
    effect setting.unlimited frame world op = effect setting frame world op := by
  cases op <;> rfl

/-- A step is one without a limit, or the limit ends the run. -/
theorem step_unlimited (setting : Setting σ) (state : State σ) :
    step setting state = step setting.unlimited state ∨
      ∃ ending : Ending σ, step setting state = .ended ending ∧ ending.CutOff := by
  obtain ⟨frame, callers, executed, world⟩ := state
  cases hop : frame.chunk.ops[frame.ip]? with
  | none =>
    left
    simp only [step, hop]
    rfl
  | some op =>
    cases hexceeded : exceeded? setting.limit (executed + 1) with
    | none =>
      left
      have hnone : exceeded? setting.unlimited.limit (executed + 1) = none := rfl
      simp only [step, hop, instruction, hexceeded, hnone, effect_unlimited]
      rfl
    | some limit =>
      right
      refine ⟨⟨.error ⟨.instructionLimit limit, traceOf (frame :: callers)⟩, executed + 1, world⟩,
        ?_, limit, _, rfl⟩
      simp only [step, hop, instruction, hexceeded]
      rfl

/-- A run that the limit does not cut off is a run without a limit. -/
theorem run_unlimited {setting : Setting σ} {fuel : Nat} {state : State σ} {ending : Ending σ}
    (h : run setting fuel state = some ending) :
    ending.CutOff ∨ run setting.unlimited fuel state = some ending := by
  induction fuel generalizing state with
  | zero => cases h
  | succ fuel ih =>
    rw [run] at h
    rw [run]
    obtain hsame | ⟨cut, hcut, hcutOff⟩ := step_unlimited setting state
    · rw [hsame] at h
      cases hstep : step setting.unlimited state with
      | ended result =>
        rw [hstep] at h
        exact .inr h
      | running next =>
        rw [hstep] at h
        exact ih h
    · rw [hcut] at h
      cases h
      exact .inl hcutOff

/-- A run without a limit is cut off by a limit, or ends in the same way with it. -/
theorem run_of_unlimited {setting : Setting σ} {fuel : Nat} {state : State σ} {ending : Ending σ}
    (h : run setting.unlimited fuel state = some ending) :
    ∃ limited, run setting fuel state = some limited ∧ (limited.CutOff ∨ limited = ending) := by
  induction fuel generalizing state with
  | zero => cases h
  | succ fuel ih =>
    rw [run] at h ⊢
    obtain hsame | ⟨cut, hcut, hcutOff⟩ := step_unlimited setting state
    · rw [hsame]
      cases hstep : step setting.unlimited state with
      | ended result =>
        rw [hstep] at h
        cases h
        exact ⟨ending, rfl, .inr rfl⟩
      | running next =>
        rw [hstep] at h
        exact ih h
    · rw [hcut]
      exact ⟨cut, rfl, .inl hcutOff⟩

end ScriptHost.Machine
