import ScriptHost.Engine.Basic
import ScriptHost.Proofs.Machine.Lines
/-!
# Lines that calls write

In front of stateless host functions a call of an engine comes to the same for every host, and
writes the same lines: `Scripted`. In front of others it writes behind what has been shown before:
`Appends`.
-/

set_option autoImplicit false

namespace ScriptHost

variable {σ α β : Type}

/-! ## Parts of calls that come to the same for every host -/

/-- The reply of a part of a call is the same for every host, but for the lines that it writes to
it, which are the same too. -/
def Scripted [HasConsole σ] (part : σ → Option (Reply σ α)) : Prop :=
  ∃ (outcome : Option (Except EngineError α × Engine)) (lines : List String), ∀ host,
    part host = outcome.map fun (result, engine) =>
      ⟨result, engine, Banner.writeLines lines host⟩

namespace Scripted

variable [HasConsole σ] {part : σ → Option (Reply σ α)}

theorem pure (result : Except EngineError α) (engine : Engine) :
    Scripted fun host : σ => some ⟨result, engine, host⟩ :=
  ⟨some (result, engine), [], fun _ => rfl⟩

theorem map (h : Scripted part) (f : α → Except EngineError β) :
    Scripted fun host => (part host).map (Reply.map f) := by
  obtain ⟨outcome, lines, hpart⟩ := h
  refine ⟨outcome.map fun (result, engine) => (result.bind f, engine), lines, fun host => ?_⟩
  cases outcome <;> simp [hpart, Reply.map]

/-- The lines of the second part come behind those of the first. -/
theorem andThen (h : Scripted part) {next : α → Engine → σ → Option (Reply σ β)}
    (hnext : ∀ a engine, Scripted (next a engine)) :
    Scripted fun host => (part host).bind fun reply => reply.andThen next := by
  obtain ⟨outcome, lines, hpart⟩ := h
  cases outcome with
  | none => exact ⟨none, [], fun host => by simp [hpart]⟩
  | some performed =>
    obtain ⟨result, engine⟩ := performed
    cases result with
    | error e => exact ⟨some (.error e, engine), lines, fun host => by simp [hpart, Reply.andThen]⟩
    | ok a =>
      obtain ⟨outcome, others, hrest⟩ := hnext a engine
      refine ⟨outcome, lines ++ others, fun host => ?_⟩
      simp [hpart, Reply.andThen, hrest, Banner.writeLines_append]

theorem finish (h : Scripted part) : Scripted fun host => (part host).map Engine.finish := by
  obtain ⟨outcome, lines, hpart⟩ := h
  cases outcome with
  | none => exact ⟨none, [], fun host => by simp [hpart]⟩
  | some performed =>
    obtain ⟨result, engine⟩ := performed
    let report := Engine.closingReport engine.report result
    let closing : List String :=
      if report.snapshot.isEmpty then [] else [Banner.errorReport report.snapshot]
    refine ⟨some (result, { engine with report, lastError := report.snapshot }), lines ++ closing,
      fun host => ?_⟩
    simp only [hpart, Option.map_some, Engine.finish, Banner.writeLines_append, closing, report]
    split <;> rfl

end Scripted

namespace Engine

variable [HasConsole σ] {catalog : Catalog σ} (hcatalog : catalog.Stateless)

/-- What is done with the end of a run that is the same for every host is the same too. -/
theorem invoke_scripted (engine : Engine) {act : World σ → Option (Machine.Ending σ)}
    (h : ∃ (outcome : Option (Except RuntimeError Value × Array Value × Heap))
      (lines : List String), ∀ host,
        (act ⟨engine.globals, engine.heap, host⟩).map (fun ending => (ending.result, ending.world)) =
          outcome.map fun (result, globals, heap) =>
            (result, ⟨globals, heap, Banner.writeLines lines host⟩)) :
    Scripted fun host => engine.invoke host act := by
  obtain ⟨outcome, lines, hact⟩ := h
  let invoking := { engine with state := .invoking }
  -- a reply does not tell how many instructions were carried out
  have hinvoke (host : σ) : engine.invoke host act =
      ((act ⟨engine.globals, engine.heap, host⟩).map fun ending =>
        (ending.result, ending.world)).map fun (result, world) =>
          invoking.settle ⟨result, 0, world⟩ := by
    rw [Option.map_map]
    rfl
  cases outcome with
  | none =>
    refine ⟨none, [], fun host => (hinvoke host).trans ?_⟩
    rw [hact]
    rfl
  | some ended =>
    obtain ⟨result, globals, heap⟩ := ended
    let after := { engine with globals, heap }
    cases result with
    | ok value =>
      refine ⟨some (.ok value, { after with state := .invoked }), lines,
        fun host => (hinvoke host).trans ?_⟩
      rw [hact]
      rfl
    | error e =>
      refine ⟨some (.error (.stopped (.fault e)), { after with state := .invokeFailed }), lines,
        fun host => (hinvoke host).trans ?_⟩
      rw [hact]
      rfl

include hcatalog

theorem execute_scripted (engine : Engine) (fuel : Nat) (linked : Linked) :
    Scripted fun host => engine.execute catalog fuel linked host := by
  apply invoke_scripted
  have hsetting : (engine.setting catalog).catalog.Stateless := hcatalog
  exact Machine.run_uniform hsetting fuel
    (fun host => ⟨.start Machine.topLevelName linked.topLevel none [] .value, [], 0,
      ⟨engine.globals, engine.heap, host⟩⟩) (fun _ _ => ⟨⟨rfl, rfl, rfl⟩⟩) fun _ => rfl

theorem invokeEntry_scripted (engine : Engine) (fuel : Nat) :
    Scripted fun host => engine.invokeEntry catalog fuel host := by
  unfold invokeEntry
  cases engine.program.classNames.get? entryClass with
  | none => exact .pure _ _
  | some id =>
    apply invoke_scripted
    have hsetting : (engine.setting catalog).catalog.Stateless := hcatalog
    unfold Machine.instantiate
    dsimp only
    cases Machine.construct (engine.setting catalog).program id [] engine.heap with
    | error e => exact ⟨some (.error ⟨e, []⟩, engine.globals, engine.heap), [], fun _ => rfl⟩
    | ok prepared =>
      obtain ⟨frame, fields⟩ := prepared
      exact Machine.run_uniform hsetting fuel
        (fun host => ⟨frame, [], 0, ⟨engine.globals, engine.heap.alloc fields, host⟩⟩)
        (fun _ _ => ⟨⟨rfl, rfl, rfl⟩⟩) fun _ => rfl

theorem perform_scripted (engine : Engine) (fuel : Nat) (sources : SourceUnit) :
    Scripted fun host => engine.perform catalog fuel sources host := by
  unfold perform
  cases engine.compile catalog sources with
  | mk result after =>
    cases result with
    | error e => exact .pure _ _
    | ok linked => exact (execute_scripted hcatalog after fuel linked).map _

theorem runUnit_scripted (engine : Engine) (fuel : Nat) (sources : SourceUnit) :
    Scripted fun host => engine.runUnit catalog fuel sources host := by
  apply (perform_scripted hcatalog engine fuel sources).andThen
  intro performed after
  exact (invokeEntry_scripted hcatalog after fuel).map _

theorem runSource_scripted (engine : Engine) (fuel : Nat) (code : String) :
    Scripted fun host => engine.runSource catalog fuel code host := by
  apply Scripted.finish
  dsimp only
  split
  · exact runUnit_scripted hcatalog engine.begin fuel _
  · exact .pure _ _

theorem runProvided_scripted (engine : Engine) (fuel : Nat)
    (provided : Except EngineError SourceUnit) :
    Scripted fun host => engine.runProvided catalog fuel provided host := by
  apply Scripted.finish
  cases provided with
  | error e => exact .pure _ _
  | ok sources => exact runUnit_scripted hcatalog engine.begin fuel sources

end Engine

/-! ## Parts of calls that write behind what is shown -/

/-- What has been shown before a part of a call is still shown after it. -/
def Appends (shown : σ → List String) (part : σ → Option (Reply σ α)) : Prop :=
  ∀ ⦃host reply⦄, part host = some reply → shown host <+: shown reply.host

namespace Appends

variable {shown : σ → List String} {part : σ → Option (Reply σ α)}

theorem pure (result : Except EngineError α) (engine : Engine) :
    Appends shown fun host : σ => some ⟨result, engine, host⟩ := by
  intro host reply h
  cases h
  exact List.prefix_rfl

theorem map (h : Appends shown part) (f : α → Except EngineError β) :
    Appends shown fun host => (part host).map (Reply.map f) := by
  intro host reply hreply
  obtain ⟨inner, hinner, rfl⟩ := Option.map_eq_some_iff.mp hreply
  exact h hinner

theorem andThen (h : Appends shown part) {next : α → Engine → σ → Option (Reply σ β)}
    (hnext : ∀ a engine, Appends shown (next a engine)) :
    Appends shown fun host => (part host).bind fun reply => reply.andThen next := by
  intro host reply hreply
  obtain ⟨first, hfirst, hrest⟩ := Option.bind_eq_some_iff.mp hreply
  unfold Reply.andThen at hrest
  split at hrest
  · exact (h hfirst).trans (hnext _ _ hrest)
  · cases hrest
    exact h hfirst

theorem finish [HasConsole σ]
    (hshown : ∀ line host, shown (writeLine line host) = shown host ++ [line])
    (h : Appends shown part) : Appends shown fun host => (part host).map Engine.finish := by
  intro host reply hreply
  obtain ⟨inner, hinner, rfl⟩ := Option.map_eq_some_iff.mp hreply
  unfold Engine.finish
  dsimp only
  split
  · exact h hinner
  · rw [Banner.reportError, hshown]
    exact (h hinner).trans (List.prefix_append _ _)

end Appends

namespace Engine

variable {shown : σ → List String} {catalog : Catalog σ} (hcatalog : catalog.Writes shown)

include hcatalog

theorem execute_appends (engine : Engine) (fuel : Nat) (linked : Linked) :
    Appends shown fun host => engine.execute catalog fuel linked host := by
  intro host reply hreply
  obtain ⟨ending, hrun, rfl⟩ := Option.map_eq_some_iff.mp hreply
  have hsetting : (engine.setting catalog).catalog.Writes shown := hcatalog
  have hwrites := Machine.run_writes hsetting hrun
  unfold settle
  split <;> exact hwrites

theorem invokeEntry_appends (engine : Engine) (fuel : Nat) :
    Appends shown fun host => engine.invokeEntry catalog fuel host := by
  have hsetting : (engine.setting catalog).catalog.Writes shown := hcatalog
  intro host reply hreply
  unfold invokeEntry at hreply
  split at hreply
  · cases hreply
    exact List.prefix_rfl
  · obtain ⟨ending, hrun, rfl⟩ := Option.map_eq_some_iff.mp hreply
    have hwrites : shown host <+: shown ending.world.host := by
      unfold Machine.instantiate at hrun
      split at hrun
      · cases hrun
        exact List.prefix_rfl
      · exact Machine.run_writes hsetting hrun
    unfold settle
    split <;> exact hwrites

theorem runUnit_appends (engine : Engine) (fuel : Nat) (sources : SourceUnit) :
    Appends shown fun host => engine.runUnit catalog fuel sources host := by
  have hperform : Appends shown fun host => engine.perform catalog fuel sources host := by
    unfold perform
    cases engine.compile catalog sources with
    | mk result after =>
      cases result with
      | error e => exact .pure _ _
      | ok linked => exact (execute_appends hcatalog after fuel linked).map _
  apply hperform.andThen
  intro performed after
  exact (invokeEntry_appends hcatalog after fuel).map _

variable [HasConsole σ]
  (hshown : ∀ line host, shown (writeLine line host) = shown host ++ [line])

include hshown

theorem runSource_appends (engine : Engine) (fuel : Nat) (code : String) :
    Appends shown fun host => engine.runSource catalog fuel code host := by
  apply Appends.finish hshown
  dsimp only
  split
  · exact runUnit_appends hcatalog engine.begin fuel _
  · exact .pure _ _

theorem runProvided_appends (engine : Engine) (fuel : Nat)
    (provided : Except EngineError SourceUnit) :
    Appends shown fun host => engine.runProvided catalog fuel provided host := by
  apply Appends.finish hshown
  cases provided with
  | error e => exact .pure _ _
  | ok sources => exact runUnit_appends hcatalog engine.begin fuel sources

end Engine

end ScriptHost
