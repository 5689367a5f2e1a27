/-!
# Computations with state and errors

What it takes for a computation to succeed, and for one to fail, where it is put together from
steps. The rules of the grammar, the walks that resolve names and the making of code are such
computations.
-/

set_option autoImplicit false

namespace ScriptHost

variable {ε σ α β : Type} {step : EStateM ε σ α} {next : α → EStateM ε σ β} {s t : σ}

/-- Behind a step that succeeds it goes on. -/
theorem bind_of_ok {a : α} (h : step s = .ok a t) : (step >>= next) s = next a t := by
  change EStateM.bind step next s = next a t
  rw [EStateM.bind, h]

/-- A step that fails is the last one. -/
theorem bind_of_error {e : ε} (h : step s = .error e t) : (step >>= next) s = .error e t := by
  change EStateM.bind step next s = .error e t
  rw [EStateM.bind, h]

/-- What goes on behind a step succeeds if both succeed. -/
theorem bind_eq_ok {b : β} :
    (step >>= next) s = .ok b t ↔ ∃ a u, step s = .ok a u ∧ next a u = .ok b t := by
  cases hstep : step s with
  | ok a u =>
    rw [bind_of_ok hstep]
    constructor
    · intro hnext
      exact ⟨a, u, rfl, hnext⟩
    · rintro ⟨a', u', hsame, hnext⟩
      cases hsame
      exact hnext
  | error e u =>
    rw [bind_of_error hstep]
    simp

/-- What goes on behind a step fails if the step fails, or else what is behind it. -/
theorem bind_eq_error {e : ε} : (step >>= next) s = .error e t ↔
    step s = .error e t ∨ ∃ a u, step s = .ok a u ∧ next a u = .error e t := by
  cases hstep : step s with
  | ok a u =>
    rw [bind_of_ok hstep]
    constructor
    · intro hnext
      exact .inr ⟨a, u, rfl, hnext⟩
    · rintro (hsame | ⟨a', u', hsame, hnext⟩)
      · cases hsame
      · cases hsame
        exact hnext
  | error e' u =>
    rw [bind_of_error hstep]
    simp

/-- An answer that leaves the state alone. -/
theorem pure_eq_ok {a b : α} : (pure a : EStateM ε σ α) s = .ok b t ↔ a = b ∧ s = t := by
  change EStateM.Result.ok a s = .ok b t ↔ _
  simp

/-- A step that looks at the state. -/
theorem get_eq_ok {a : σ} : (MonadState.get : EStateM ε σ σ) s = .ok a t ↔ s = a ∧ s = t := by
  change EStateM.Result.ok s s = .ok a t ↔ _
  simp

/-- A step that changes the state. -/
theorem modify_eq_ok {f : σ → σ} {u : PUnit} :
    (modify f : EStateM ε σ PUnit) s = .ok u t ↔ f s = t := by
  change EStateM.Result.ok PUnit.unit (f s) = .ok u t ↔ _
  simp

end ScriptHost
