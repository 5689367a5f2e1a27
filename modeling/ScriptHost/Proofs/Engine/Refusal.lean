import ScriptHost.Proofs.Engine.Site
/-!
# Calls that fail before anything runs

A call that cannot be carried out in the engine's mode, whose sources cannot be read, or whose
sources cannot be built and linked, ends before the machine is started: it has its reply without
fuel, and whatever the host functions do. It changes nothing that the engine keeps from call to
call, so all that comes after it is as if it had not been made.
-/

set_option autoImplicit false

namespace ScriptHost

variable {σ τ α β : Type}

/-- The errors of calls that fail before a script runs. -/
def EngineError.early : EngineError → Bool
  | .noManifest _ | .invalidManifest .. | .missingSource _ | .unreadable .. | .notBuilt _
  | .wrongMode .. => true
  | .missingEntry _ | .stopped _ => false

namespace Engine

/-- Host functions are found alike in both catalogs: the same names lead to functions that take as
many arguments. Nothing is said of what the functions do. -/
def SameLookups (engine : Engine) (catalog other : Catalog σ) : Prop :=
  ∀ module function,
    engine.view.lookup other module function = engine.view.lookup catalog module function

/-- An error, and nothing has changed but the state and the report. -/
structure Refuses (engine : Engine) (host : σ) (reply : Reply σ α) : Prop where
  error : ∃ e, reply.result = .error e
  engine : ∃ state report, reply.engine = { engine with state, report }
  host : reply.host = host

/-- A part of a call fails before anything runs: it needs no fuel, and what host functions do is
nothing to it. -/
def Fails (engine : Engine) (catalog : Catalog σ) (host : σ)
    (part : Catalog σ → Nat → Option (Reply σ α)) : Prop :=
  ∃ reply, engine.Refuses host reply ∧
    ∀ other fuel, engine.SameLookups catalog other → part other fuel = some reply

/-- Whatever the error of a reply, it is not an early one. -/
def Late (part : Nat → Option (Reply σ α)) : Prop :=
  ∀ ⦃fuel : Nat⦄ ⦃reply : Reply σ α⦄ ⦃e : EngineError⦄, part fuel = some reply →
    reply.result = .error e → e.early = false

variable {engine : Engine} {catalog : Catalog σ} {host : σ}

theorem compile_error {sources : SourceUnit} {e : EngineError} {after : Engine}
    (h : engine.compile catalog sources = (.error e, after)) :
    ∃ state report, after = { engine with state, report } := by
  unfold compile at h
  cases hbuild : build sources.texts (engine.environment catalog) with
  | mk built diagnostics =>
    rw [hbuild] at h
    cases built with
    | none =>
      cases h
      exact ⟨_, _, rfl⟩
    | some unit =>
      dsimp only at h
      split at h
      · unfold Engine.link at h
        split at h
        · cases h
          exact ⟨_, _, rfl⟩
        · cases h
      · cases h
        exact ⟨_, _, rfl⟩

/-- Sources are built and linked in the same way where host functions are found alike. -/
theorem compile_congr {other : Catalog σ} (h : engine.SameLookups catalog other)
    (sources : SourceUnit) : engine.compile other sources = engine.compile catalog sources := by
  have hlookup : engine.view.lookup other = engine.view.lookup catalog := by
    funext module function
    exact h module function
  have henvironment : engine.environment other = engine.environment catalog := by
    unfold environment
    rw [hlookup]
  unfold compile
  rw [henvironment]

theorem invoke_late (act : Nat → World σ → Option (Machine.Ending σ)) :
    Late fun fuel => engine.invoke host (act fuel) := by
  intro fuel reply e hreply herror
  obtain ⟨ending, -, rfl⟩ := Option.map_eq_some_iff.mp hreply
  unfold settle at herror
  cases hresult : ending.result with
  | ok value =>
    rw [hresult] at herror
    cases herror
  | error fault =>
    rw [hresult] at herror
    cases herror
    rfl

theorem invokeEntry_late : Late fun fuel => engine.invokeEntry catalog fuel host := by
  intro fuel reply e hreply herror
  dsimp only [invokeEntry] at hreply
  split at hreply
  · cases hreply
    cases herror
    rfl
  · exact invoke_late (fun fuel => Machine.instantiate (engine.setting catalog) fuel _ []) hreply
      herror

/-- What only fails where it is not early keeps doing so when its value is taken further. -/
theorem Late.map {part : Nat → Option (Reply σ α)} (h : Late part) {f : α → Except EngineError β}
    (hf : ∀ a e, f a = .error e → e.early = false) :
    Late fun fuel => (part fuel).map (Reply.map f) := by
  intro fuel reply e hreply herror
  obtain ⟨inner, hinner, rfl⟩ := Option.map_eq_some_iff.mp hreply
  unfold Reply.map at herror
  cases hresult : inner.result with
  | error e' =>
    rw [hresult] at herror
    cases herror
    exact h hinner hresult
  | ok a =>
    rw [hresult] at herror
    exact hf a e herror

theorem Fails.map {part : Catalog σ → Nat → Option (Reply σ α)} (h : engine.Fails catalog host part)
    (f : α → Except EngineError β) :
    engine.Fails catalog host fun catalog fuel => (part catalog fuel).map (Reply.map f) := by
  obtain ⟨reply, ⟨⟨e, herror⟩, hengine, hhost⟩, hpart⟩ := h
  refine ⟨reply.map f, ⟨⟨e, ?_⟩, hengine, hhost⟩, fun other fuel hlookups => ?_⟩
  · exact congrArg (·.bind f) herror
  · dsimp only
    rw [hpart other fuel hlookups]
    rfl

variable (engine catalog host)

theorem perform_cases (sources : SourceUnit) :
    engine.Fails catalog host (fun catalog fuel => engine.perform catalog fuel sources host) ∨
      Late fun fuel => engine.perform catalog fuel sources host := by
  cases hcompile : engine.compile catalog sources with
  | mk result after =>
    cases result with
    | error e =>
      refine .inl ⟨⟨.error e, after, host⟩, ⟨⟨e, rfl⟩, compile_error hcompile, rfl⟩, ?_⟩
      intro other fuel hlookups
      dsimp only [perform]
      rw [compile_congr hlookups, hcompile]
    | ok linked =>
      right
      unfold perform
      rw [hcompile]
      refine Late.map ?_ fun _ _ hok => by cases hok
      exact invoke_late fun fuel => Machine.runTopLevel (after.setting catalog) fuel linked.topLevel

theorem runUnit_cases (sources : SourceUnit) :
    engine.Fails catalog host (fun catalog fuel => engine.runUnit catalog fuel sources host) ∨
      Late fun fuel => engine.runUnit catalog fuel sources host := by
  obtain ⟨reply, ⟨⟨e, herror⟩, hengine, hhost⟩, hperform⟩ | hlate :=
    engine.perform_cases catalog host sources
  · refine .inl ⟨⟨.error e, reply.engine, reply.host⟩, ⟨⟨e, rfl⟩, hengine, hhost⟩, ?_⟩
    intro other fuel hlookups
    have hreply := hperform other fuel hlookups
    refine Option.bind_eq_some_iff.mpr ⟨reply, hreply, ?_⟩
    unfold Reply.andThen
    rw [herror]
  · refine .inr fun fuel reply e hreply herror => ?_
    obtain ⟨performed, hperformed, hreply⟩ := Option.bind_eq_some_iff.mp hreply
    unfold Reply.andThen at hreply
    split at hreply
    · exact Late.map invokeEntry_late (fun _ _ hok => by cases hok) hreply herror
    · rename_i e' hresult
      cases hreply
      cases herror
      exact hlate hperformed hresult

/-- A part that is nothing but an error fails. -/
theorem fails_error (e : EngineError) :
    engine.Fails catalog host fun _ _ => some (⟨.error e, engine, host⟩ : Reply σ α) :=
  ⟨_, ⟨⟨e, rfl⟩, ⟨_, _, rfl⟩, rfl⟩, fun _ _ _ => rfl⟩

theorem evaluateUnit_cases (code : String) :
    engine.Fails catalog host (fun catalog fuel => engine.evaluateUnit catalog fuel code host) ∨
      Late fun fuel => engine.evaluateUnit catalog fuel code host := by
  unfold evaluateUnit
  split
  · exact .inl (fails_error engine catalog host _)
  · obtain hfails | hlate := engine.perform_cases catalog host (.inline code)
    · exact .inl (hfails.map _)
    · exact .inr (hlate.map fun _ _ hok => by cases hok)

theorem convertTo_late {kind : ValueKind} {value : Option Value} {e : EngineError}
    (h : convertTo kind value = .error e) : e.early = false := by
  unfold convertTo at h
  split at h
  · cases h
  · split at h
    · cases h
    · cases h
      rfl

variable {engine catalog host} [HasConsole σ]

/-- A call that has failed before anything ran: what the engine keeps is the same, and nothing has
been done to the host but to show it the error. -/
structure Refused (engine : Engine) (host : σ) (reply : Reply σ α) : Prop where
  engine : ∃ state report lastError, reply.engine = { engine with state, report, lastError }
  host : reply.host =
    if reply.engine.lastError.isEmpty then host
    else Banner.reportError reply.engine.lastError host

/-- A call with an early error has failed before anything ran. -/
theorem call_refused {body : Catalog σ → Nat → Engine → σ → Option (Reply σ α)}
    (hbody :
      engine.begin.Fails catalog host (fun catalog fuel => body catalog fuel engine.begin host) ∨
        Late fun fuel => body catalog fuel engine.begin host)
    {fuel : Nat} {reply : Reply σ α} {e : EngineError}
    (hcall : engine.call host (body catalog fuel) = some reply) (herror : reply.result = .error e)
    (hearly : e.early = true) :
    engine.Refused host reply ∧ ∀ other fuel, engine.SameLookups catalog other →
      engine.call host (body other fuel) = some reply := by
  obtain ⟨inner, hinner, rfl⟩ := Option.map_eq_some_iff.mp hcall
  obtain ⟨refusal, ⟨-, ⟨state, report, hengine⟩, hhost⟩, hfails⟩ | hlate := hbody
  · have hsame : some inner = some refusal := hinner.symm.trans (hfails catalog fuel fun _ _ => rfl)
    cases hsame
    refine ⟨⟨⟨state, (finish inner).engine.report, (finish inner).engine.lastError, ?_⟩, ?_⟩,
      fun other fuel hlookups => ?_⟩
    · unfold finish
      dsimp only
      rw [hengine]
      rfl
    · unfold finish
      dsimp only
      rw [hhost]
    · exact congrArg (Option.map finish) (hfails other fuel hlookups)
  · have hlate' := hlate hinner herror
    rw [hearly] at hlate'
    cases hlate'

end Engine

namespace Site

variable [HasConsole σ]

/-- Where the engine's reply comes from a call that failed before anything ran, so does what the
caller at a site sees. -/
theorem take_refused {site later : Site σ} {fuel : Nat} {e : EngineError} {answer : α → Answer}
    (call : Catalog σ → Nat → Option (Reply σ α))
    (hrefused : ∀ {reply : Reply σ α}, call site.catalog fuel = some reply →
      reply.result = .error e → site.engine.Refused site.host reply ∧
        ∀ other fuel, site.engine.SameLookups site.catalog other → call other fuel = some reply)
    (hcall : (call site.catalog fuel).map (site.take answer) = some (.error e, later)) :
    (∃ state report lastError, later =
      { site with
        engine := { site.engine with state, report, lastError }
        host := if lastError.isEmpty then site.host else Banner.reportError lastError site.host }) ∧
      ∀ other fuel, site.engine.SameLookups site.catalog other →
        (call other fuel).map ({ site with catalog := other }.take answer) =
          some (.error e, { later with catalog := other }) := by
  obtain ⟨reply, hreply, htaken⟩ := Option.map_eq_some_iff.mp hcall
  injection htaken with hresult hlater
  have herror : reply.result = .error e := by
    cases hcases : reply.result with
    | ok a =>
      rw [hcases] at hresult
      cases hresult
    | error e' =>
      rw [hcases] at hresult
      cases hresult
      rfl
  obtain ⟨⟨⟨state, report, lastError, hengine⟩, hhost⟩, hsame⟩ := hrefused hreply herror
  refine ⟨⟨state, report, lastError, ?_⟩, fun other fuel hlookups => ?_⟩
  · rw [← hlater, hhost, hengine]
  · rw [hsame other fuel hlookups, ← hlater]
    refine congrArg some (Prod.ext ?_ rfl)
    exact congrArg (·.map answer) herror

/-- A call with an early error leaves nothing behind but a state, a report, a last error, and the
console lines that show it. -/
theorem ask_refused {site later : Site σ} {fuel : Nat} {request : Request} {e : EngineError}
    (hask : site.ask fuel request = some (.error e, later)) (hearly : e.early = true) :
    (∃ state report lastError, later =
      { site with
        engine := { site.engine with state, report, lastError }
        host := if lastError.isEmpty then site.host else Banner.reportError lastError site.host }) ∧
      ∀ other fuel, site.engine.SameLookups site.catalog other →
        { site with catalog := other }.ask fuel request =
          some (.error e, { later with catalog := other }) := by
  obtain ⟨catalog, disk, engine, host⟩ := site
  cases request with
  | runSource code =>
    refine take_refused (fun catalog fuel => engine.runSource catalog fuel code host)
      (fun hreply herror => ?_) hask
    refine Engine.call_refused ?_ hreply herror hearly
    dsimp only
    split
    · exact Engine.runUnit_cases _ catalog host _
    · exact .inl (Engine.fails_error _ catalog host _)
  | run =>
    simp only [ask, Engine.run_eq] at hask ⊢
    generalize ((engine.provide : StateM Disk _).run disk).1 = provided at hask ⊢
    refine take_refused (fun catalog fuel => engine.runProvided catalog fuel provided host)
      (fun hreply herror => ?_) hask
    refine Engine.call_refused ?_ hreply herror hearly
    cases provided with
    | ok sources => exact Engine.runUnit_cases _ catalog host sources
    | error e => exact .inl (Engine.fails_error _ catalog host e)
  | evaluate code =>
    refine take_refused (fun catalog fuel => engine.evaluate catalog fuel code host)
      (fun hreply herror => ?_) hask
    exact Engine.call_refused (Engine.evaluateUnit_cases _ catalog host code) hreply herror hearly
  | evaluateAs kind code =>
    refine take_refused (fun catalog fuel => engine.evaluateAs catalog fuel kind code host)
      (fun hreply herror => ?_) hask
    refine Engine.call_refused ?_ hreply herror hearly
    obtain hfails | hlate := Engine.evaluateUnit_cases engine.begin catalog host code
    · exact .inl (hfails.map _)
    · exact .inr (hlate.map fun _ _ hok => Engine.convertTo_late hok)

variable {view : σ → τ}

end Site

end ScriptHost
