import ScriptHost.Proofs.Engine.Refusal
import ScriptHost.Proofs.Program.Build
/-!
# The state of an engine after a call

A call passes through states, and leaves the engine in one that tells how the call ended.
`Sight.Corresponds` is what the state and the result of a call should have to do with each other.
It holds of every call, but for one kind of failure: where a value has been found and is not of the
kind that the caller asked for, the engine is left as after a call that has succeeded.
-/

set_option autoImplicit false

namespace ScriptHost

variable {σ α β : Type}

/-- A state that a call only passes through. -/
def UnitState.transitional : UnitState → Bool
  | .compiling | .ready | .invoking => true
  | .idle | .failed | .invoked | .invokeFailed => false

/-- The state tells how the call ended. -/
structure Sight.Corresponds (sight : Sight) : Prop where
  lasting : sight.state.transitional = false
  invoked : sight.state = .invoked ↔ ∃ answer, sight.result = .ok answer
  failed : sight.state = .failed ↔ ∃ errors, sight.result = .error (.notBuilt errors)
  invokeFailed : sight.state = .invokeFailed ↔
    (∃ failure, sight.result = .error (.stopped failure)) ∨
      ∃ name, sight.result = .error (.missingEntry name)
  idle : sight.state = .idle ↔
    (∃ operation mode, sight.result = .error (.wrongMode operation mode)) ∨
      ∃ e, sight.result = .error e ∧ e.ofReading = true

/-- The state that belongs to an error. -/
def EngineError.state : EngineError → UnitState
  | .notBuilt _ => .failed
  | .missingEntry _ | .stopped _ => .invokeFailed
  | .noManifest _ | .invalidManifest .. | .missingSource _ | .unreadable .. | .wrongMode .. => .idle

/-- The state that an error is found with. -/
def EngineError.stateWith : EngineError → UnitState
  | .stopped (.conversion _) => .invoked
  | e => e.state

/-- The state that belongs to a result, given what belongs to an error. -/
def stateAfter (ofError : EngineError → UnitState) : Except EngineError α → UnitState
  | .ok _ => .invoked
  | .error e => ofError e

/-- State and result correspond if the state is the one that belongs to the result. -/
theorem Sight.corresponds_iff (sight : Sight) :
    sight.Corresponds ↔ sight.state = stateAfter EngineError.state sight.result := by
  obtain ⟨result, state, lastError⟩ := sight
  constructor
  · intro h
    cases result with
    | ok answer => exact h.invoked.mpr ⟨answer, rfl⟩
    | error e =>
      cases e with
      | notBuilt errors => exact h.failed.mpr ⟨errors, rfl⟩
      | missingEntry name => exact h.invokeFailed.mpr (.inr ⟨name, rfl⟩)
      | stopped failure => exact h.invokeFailed.mpr (.inl ⟨failure, rfl⟩)
      | wrongMode operation mode => exact h.idle.mpr (.inl ⟨operation, mode, rfl⟩)
      | noManifest _ | invalidManifest _ _ | missingSource _ | unreadable _ _ =>
        exact h.idle.mpr (.inr ⟨_, rfl, rfl⟩)
  · intro h
    dsimp only at h
    subst h
    cases result with
    | ok answer => constructor <;> simp [stateAfter, UnitState.transitional]
    | error e =>
      cases e <;> constructor <;>
        simp [stateAfter, EngineError.state, UnitState.transitional, EngineError.ofReading]

/-- The engine is in the state that the result is found with. -/
def Reply.Settled (reply : Reply σ α) : Prop :=
  reply.engine.state = stateAfter EngineError.stateWith reply.result

/-- To take a value further, where that cannot fail but for its kind, keeps the engine settled. -/
theorem Reply.Settled.map {reply : Reply σ α} (h : reply.Settled) {f : α → Except EngineError β}
    (hf : ∀ a e, f a = .error e → ∃ mismatch, e = .stopped (.conversion mismatch)) :
    (reply.map f).Settled := by
  obtain ⟨result, engine, host⟩ := reply
  cases result with
  | error e => exact h
  | ok a =>
    unfold Settled Reply.map
    dsimp only [Except.bind]
    cases hvalue : f a with
    | ok b => exact h
    | error e =>
      obtain ⟨mismatch, rfl⟩ := hf a e hvalue
      exact h

/-- To take a value further where that cannot fail keeps the engine settled. -/
theorem Reply.Settled.map_ok {reply : Reply σ α} (h : reply.Settled) (f : α → β) :
    (reply.map fun a => .ok (f a)).Settled :=
  h.map fun _ _ hvalue => by cases hvalue

namespace Engine

variable {engine : Engine} {catalog : Catalog σ} {host : σ}

/-- Sources that cannot be built or linked leave the engine in the state for that. -/
theorem compile_settled {sources : SourceUnit} {e : EngineError} {after : Engine}
    (h : engine.compile catalog sources = (.error e, after)) :
    after.state = e.stateWith := by
  unfold compile at h
  generalize build sources.texts (engine.environment catalog) = built at h
  obtain ⟨unit, diagnostics⟩ := built
  cases unit with
  | none =>
    cases h
    rfl
  | some unit =>
    dsimp only at h
    split at h
    · unfold Engine.link at h
      split at h
      · cases h
        rfl
      · cases h
    · cases h
      rfl

theorem invoke_settled {act : World σ → Option (Machine.Ending σ)} {reply : Reply σ Value}
    (h : engine.invoke host act = some reply) : reply.Settled := by
  obtain ⟨ending, -, rfl⟩ := Option.map_eq_some_iff.mp h
  unfold settle Reply.Settled
  cases ending.result <;> rfl

theorem invokeEntry_settled {fuel : Nat} {reply : Reply σ Value}
    (h : engine.invokeEntry catalog fuel host = some reply) : reply.Settled := by
  unfold invokeEntry at h
  split at h
  · cases h
    rfl
  · exact invoke_settled h

theorem perform_settled {fuel : Nat} {sources : SourceUnit} {reply : Reply σ (Linked × Value)}
    (h : engine.perform catalog fuel sources host = some reply) : reply.Settled := by
  unfold perform at h
  split at h
  · rename_i e after hcompile
    cases h
    exact compile_settled hcompile
  · obtain ⟨inner, hinner, rfl⟩ := Option.map_eq_some_iff.mp h
    exact (invoke_settled hinner).map_ok _

theorem runUnit_settled {fuel : Nat} {sources : SourceUnit} {reply : Reply σ BuildResult}
    (h : engine.runUnit catalog fuel sources host = some reply) : reply.Settled := by
  obtain ⟨performed, hperformed, h⟩ := Option.bind_eq_some_iff.mp h
  unfold Reply.andThen at h
  split at h
  · obtain ⟨inner, hinner, rfl⟩ := Option.map_eq_some_iff.mp h
    exact (invokeEntry_settled hinner).map_ok _
  · rename_i e hresult
    cases h
    have hstate := perform_settled hperformed
    unfold Reply.Settled at hstate ⊢
    rw [hresult] at hstate
    exact hstate

/-- The value of sources is found in an engine whose state says that nothing has happened yet. -/
theorem evaluateUnit_settled (hidle : engine.state = .idle) {fuel : Nat} {code : String}
    {reply : Reply σ (Option Value)}
    (h : engine.evaluateUnit catalog fuel code host = some reply) : reply.Settled := by
  unfold evaluateUnit at h
  split at h
  · cases h
    exact hidle
  · obtain ⟨inner, hinner, rfl⟩ := Option.map_eq_some_iff.mp h
    exact (perform_settled hinner).map_ok _

/-- A value that is not of the kind asked for is the only reason why taking it as one fails. -/
theorem convertTo_error {kind : ValueKind} {value : Option Value} {e : EngineError}
    (h : convertTo kind value = .error e) : ∃ mismatch, e = .stopped (.conversion mismatch) := by
  unfold convertTo at h
  split at h
  · cases h
  · split at h
    · cases h
    · cases h
      exact ⟨_, rfl⟩

/-- Where there are no sources to run, the state that belongs to the error is that of a new start. -/
theorem stateWith_of_provide {disk : Disk} {e : EngineError}
    (h : ((engine.provide : StateM Disk _).run disk).1 = .error e) : e.stateWith = .idle := by
  obtain ⟨operation, mode, rfl⟩ | hreading := provide_error h
  · rfl
  · cases e with
    | noManifest _ | invalidManifest _ _ | missingSource _ | unreadable _ _ => rfl
    | notBuilt _ | missingEntry _ | stopped _ | wrongMode _ _ => cases hreading

/-- A call is settled if what it does from a new start is. -/
theorem call_settled [HasConsole σ] {body : Engine → σ → Option (Reply σ α)}
    (hbody : ∀ {inner : Reply σ α}, body engine.begin host = some inner → inner.Settled)
    {reply : Reply σ α} (h : engine.call host body = some reply) : reply.Settled := by
  obtain ⟨inner, hinner, rfl⟩ := Option.map_eq_some_iff.mp h
  have hsettled := hbody hinner
  exact hsettled

end Engine

namespace Site

variable [HasConsole σ]

/-- After every call the engine is in the state that the result is found with. -/
theorem ask_settled {site later : Site σ} {fuel : Nat} {request : Request}
    {result : Except EngineError Answer} (h : site.ask fuel request = some (result, later)) :
    later.engine.state = stateAfter EngineError.stateWith result := by
  have htake {α : Type} {answer : α → Answer} {call : Option (Reply σ α)}
      (hcall : ∀ {reply : Reply σ α}, call = some reply → reply.Settled)
      (h : call.map (site.take answer) = some (result, later)) :
      later.engine.state = stateAfter EngineError.stateWith result := by
    obtain ⟨⟨value, engine, host⟩, hreply, htaken⟩ := Option.map_eq_some_iff.mp h
    cases htaken
    have hsettled := hcall hreply
    cases value with
    | ok a => exact hsettled
    | error e => exact hsettled
  cases request with
  | runSource code =>
    refine htake (fun hreply => Engine.call_settled (fun hinner => ?_) hreply) h
    split at hinner
    · exact Engine.runUnit_settled hinner
    · cases hinner
      rfl
  | run =>
    unfold ask at h
    rw [Engine.run_eq] at h
    refine htake (fun hreply => Engine.call_settled (fun hinner => ?_) hreply) h
    split at hinner
    · exact Engine.runUnit_settled hinner
    · rename_i e hprovided
      cases hinner
      exact (Engine.stateWith_of_provide hprovided).symm
  | evaluate code =>
    refine htake (fun hreply => Engine.call_settled (fun hinner => ?_) hreply) h
    exact Engine.evaluateUnit_settled rfl hinner
  | evaluateAs kind code =>
    refine htake (fun hreply => Engine.call_settled (fun hinner => ?_) hreply) h
    obtain ⟨evaluated, hevaluated, rfl⟩ := Option.map_eq_some_iff.mp hinner
    exact (Engine.evaluateUnit_settled rfl hevaluated).map fun _ _ => Engine.convertTo_error

/-- What the caller sees after any call, whatever has happened before it, is what a call at some site
has led to. -/
theorem exists_ask_of_mem_watch {events : List (Event σ)} {site : Site σ} {sight : Sight}
    (h : some sight ∈ site.watch events) : ∃ (before after : Site σ) (fuel : Nat)
      (request : Request), before.ask fuel request = some (sight.result, after) ∧
        sight.state = after.engine.state ∧ sight.lastError = after.engine.lastError := by
  induction events generalizing site with
  | nil => cases h
  | cons event rest ih =>
    cases event with
    | ask fuel request =>
      rw [watch] at h
      split at h
      · simp at h
      · rename_i result after hask
        obtain hsight | hrest := List.mem_cons.mp h
        · cases hsight
          exact ⟨site, after, fuel, request, hask, rfl, rfl⟩
        · exact ih hrest
    | register _ | load _ | unload _ | files _ => exact ih h

/-- After every call, whatever has happened before it, the engine is in a state that lasts, and the
state corresponds to the result unless a value was not of the kind that the caller asked for. Where
it was not, the engine is in the state of a call that has succeeded. -/
theorem state_corresponds_iff {events : List (Event σ)} {site : Site σ} {sight : Sight}
    (h : some sight ∈ site.watch events) :
    sight.state.transitional = false ∧
      (sight.Corresponds ↔ ∀ mismatch, sight.result ≠ .error (.stopped (.conversion mismatch))) ∧
        ∀ mismatch, sight.result = .error (.stopped (.conversion mismatch)) →
          sight.state = .invoked := by
  obtain ⟨before, after, fuel, request, hask, hstate, -⟩ := exists_ask_of_mem_watch h
  rw [Sight.corresponds_iff, hstate, ask_settled hask]
  cases hresult : sight.result with
  | ok answer => simp [stateAfter, UnitState.transitional]
  | error e =>
    cases e with
    | stopped failure =>
      cases failure <;>
        simp [stateAfter, EngineError.stateWith, EngineError.state, UnitState.transitional]
    | _ => simp [stateAfter, EngineError.stateWith, EngineError.state, UnitState.transitional]

/-! ## A text where a truth value is asked for -/

/-- The unit of a source text that is nothing but a text in quotes. -/
def quoting (text : String) : CompiledUnit where
  functionBase := 0
  functions := #[]
  classBase := 0
  classes := #[]
  functionNames := []
  globals := []
  hostCalls := #[]
  bindingBase := 0
  topLevel := ⟨#[.pushConst 0, .ret, .pushNull, .ret], #[.str text], 0⟩
  returnsValue := true

/-- A text in quotes is found to be a text, and the engine is left as after a success. -/
theorem evaluateUnit_quoting : ∃ after : Engine, after.state = .invoked ∧
    (Engine.inline {}).begin.evaluateUnit ({} : Catalog Console) 2 "\"text\"" {} =
      some ⟨.ok (some (.str "text")), after, {}⟩ := by
  have hlex : lex "\"text\"" 0 = .ok [⟨.str "text", ⟨0, 0, 6⟩⟩, ⟨.eof, ⟨0, 6, 6⟩⟩] := by
    with_unfolding_all rfl
  have hread : read "\"text\"" 0 = .ok [.stmt (.expr (.str "text" ⟨0, 0, 6⟩))] := by
    unfold read
    rw [hlex]
    with_unfolding_all rfl
  have hbuild : build (SourceUnit.inline "\"text\"").texts
      ((Engine.inline {}).begin.environment ({} : Catalog Console)) = (some (quoting "text"), []) :=
    build_of_read hread rfl (by with_unfolding_all rfl)
  obtain ⟨after, hcompile, hlimit⟩ : ∃ after : Engine,
      (Engine.inline {}).begin.compile ({} : Catalog Console) (.inline "\"text\"") =
          (.ok ⟨(quoting "text").topLevel, true, .clean⟩, after) ∧
        after.config.instructionLimit = none := by
    unfold Engine.compile
    rw [hbuild]
    exact ⟨_, rfl, rfl⟩
  have hrun : Machine.runTopLevel (after.setting ({} : Catalog Console)) 2
      (quoting "text").topLevel ⟨after.globals, after.heap, {}⟩ =
        some ⟨.ok (.str "text"), 2, ⟨after.globals, after.heap, {}⟩⟩ := by
    unfold Engine.setting
    rw [hlimit]
    rfl
  have hexecute : after.execute ({} : Catalog Console) 2
      ⟨(quoting "text").topLevel, true, .clean⟩ {} =
        some ⟨.ok (.str "text"), { after with state := .invoked }, {}⟩ :=
    congrArg (Option.map _) hrun
  refine ⟨{ after with state := .invoked }, rfl, ?_⟩
  unfold Engine.evaluateUnit Engine.perform
  rw [hcompile]
  dsimp only
  rw [hexecute]
  rfl

/-- The call fails, and the engine is left in the state of a call that has succeeded. -/
theorem unconvertible_text_leaves_invoked :
    let site : Site Console := ⟨{}, {}, .inline {}, {}⟩
    ∃ sight, some sight ∈ site.watch [.ask 2 (.evaluateAs .bool "\"text\"")] ∧
      sight.result = .error (.stopped (.conversion ⟨.bool, "string"⟩)) ∧
        sight.state = .invoked ∧ ¬ sight.Corresponds := by
  intro site
  obtain ⟨after, -, hevaluated⟩ := evaluateUnit_quoting
  have hcall : site.engine.evaluateAs site.catalog 2 .bool "\"text\"" site.host =
      some (Engine.finish ⟨.error (.stopped (.conversion ⟨.bool, "string"⟩)), after, {}⟩) := by
    unfold Engine.evaluateAs Engine.call
    dsimp only [site]
    rw [hevaluated]
    rfl
  obtain ⟨later, hask⟩ : ∃ later, site.ask 2 (.evaluateAs .bool "\"text\"") =
      some (.error (.stopped (.conversion ⟨.bool, "string"⟩)), later) := by
    unfold ask
    dsimp only
    rw [hcall]
    exact ⟨_, rfl⟩
  have hsight : some ⟨.error (.stopped (.conversion ⟨.bool, "string"⟩)), later.engine.state,
      later.engine.lastError⟩ ∈ site.watch [.ask 2 (.evaluateAs .bool "\"text\"")] := by
    rw [watch, hask]
    exact List.mem_cons_self
  obtain ⟨-, hcorresponds, hinvoked⟩ := state_corresponds_iff hsight
  exact ⟨_, hsight, rfl, hinvoked _ rfl, fun h => hcorresponds.mp h _ rfl⟩

end Site

end ScriptHost
