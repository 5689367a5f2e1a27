import ScriptHost.Engine.Basic
import ScriptHost.Proofs.Machine.Alike
import ScriptHost.Proofs.Project.Reading
/-!
# Callers of an engine

A caller knows an engine by its replies. What an engine has said in earlier calls makes no
difference to those that come.
-/

set_option autoImplicit false

/-! ## Calls that a caller cannot tell apart

What an engine keeps from call to call is all that its later calls go by: the state, the report and
the last error of a call are gone when the next one begins. So two engines that keep the same, in
front of hosts with the same view, give the same replies, and are the same engine afterwards. -/

namespace ScriptHost

variable {σ τ α β : Type} {view : σ → τ}

namespace Engine

/-- The engine with another last error. -/
def said (engine : Engine) (text : String) : Engine :=
  { engine with lastError := text }

/-- What the engine keeps from call to call. -/
def kept (engine : Engine) : Engine :=
  { engine with state := .idle, report := {}, lastError := "" }

end Engine

/-- What is done with results of two runs that are related. -/
theorem rel_map {γ δ : Type} {related : γ → γ → Prop} {related' : δ → δ → Prop}
    {first second : Option γ} {f g : γ → δ} (h : Option.Rel related first second)
    (hmap : ∀ {c d : γ}, related c d → related' (f c) (g d)) :
    Option.Rel related' (first.map f) (second.map g) := by
  cases h with
  | none => exact .none
  | some hrelated => exact .some (hmap hrelated)

/-- What comes after two runs whose results are related. -/
theorem rel_bind {γ δ : Type} {related : γ → γ → Prop} {related' : δ → δ → Prop}
    {first second : Option γ} {f g : γ → Option δ} (h : Option.Rel related first second)
    (hbind : ∀ {c d : γ}, related c d → Option.Rel related' (f c) (g d)) :
    Option.Rel related' (first.bind f) (second.bind g) := by
  cases h with
  | none => exact .none
  | some hrelated => exact hbind hrelated

/-- The replies differ in nothing but the last error of an earlier call, and what the view does not
show of the host. -/
structure Reply.Alike (view : σ → τ) (reply other : Reply σ α) : Prop where
  result : other.result = reply.result
  engine : ∃ text, other.engine = reply.engine.said text
  host : view other.host = view reply.host

namespace Engine

variable {engine : Engine} {catalog : Catalog σ} {a b : σ} {text : String}

theorem said_of_kept {other : Engine} (h : engine.kept = other.kept) :
    other.begin = engine.begin.said other.lastError := by
  unfold kept at h
  unfold begin said
  injection h with hmode hconfig _ hprogram hglobals hheap hview
  rw [hmode, hconfig, hprogram, hglobals, hheap, hview]

/-- To build and link sources does not look at the last error. -/
theorem compile_said (sources : SourceUnit) :
    (engine.said text).compile catalog sources =
      ((engine.compile catalog sources).1, (engine.compile catalog sources).2.said text) := by
  have henvironment : (engine.said text).environment catalog = engine.environment catalog := rfl
  unfold compile
  rw [henvironment]
  cases build sources.texts (engine.environment catalog) with
  | mk built diagnostics =>
    cases built with
    | none => rfl
    | some unit =>
      dsimp only
      split
      · have hprogram : ({ engine.said text with state := .compiling }.reportAll sources
          diagnostics).program = engine.program := rfl
        have hprogram' : ({ engine with state := .compiling }.reportAll sources
          diagnostics).program = engine.program := rfl
        have hview : ({ engine.said text with state := .compiling }.reportAll sources
          diagnostics).view = engine.view := rfl
        have hview' : ({ engine with state := .compiling }.reportAll sources
          diagnostics).view = engine.view := rfl
        unfold Engine.link
        rw [hprogram, hprogram', hview, hview']
        cases engine.program.link unit engine.view.allowed <;> rfl
      · rfl

theorem invoke_alike {act : World σ → Option (Machine.Ending σ)}
    (h : ∀ {world other : World σ}, world.Alike view other →
      Option.Rel (Machine.Ending.Alike view) (act world) (act other))
    (hhost : view b = view a) :
    Option.Rel (Reply.Alike view) (engine.invoke a act) ((engine.said text).invoke b act) := by
  have hworld : World.Alike view ⟨engine.globals, engine.heap, a⟩
      ⟨engine.globals, engine.heap, b⟩ := ⟨rfl, rfl, hhost⟩
  refine rel_map (h hworld) fun {ending other} halike => ?_
  obtain ⟨hresult, hglobals, hheap, hview⟩ := halike
  unfold settle
  dsimp only
  rw [hresult, hglobals, hheap]
  cases ending.result with
  | ok value => exact ⟨rfl, ⟨text, rfl⟩, hview⟩
  | error e => exact ⟨rfl, ⟨text, rfl⟩, hview⟩

variable (hcatalog : catalog.GoesBy view)

include hcatalog

theorem execute_alike (fuel : Nat) (linked : Linked) (hhost : view b = view a) :
    Option.Rel (Reply.Alike view) (engine.execute catalog fuel linked a)
      ((engine.said text).execute catalog fuel linked b) :=
  invoke_alike (fun halike => Machine.runTopLevel_alike hcatalog fuel linked.topLevel halike) hhost

theorem invokeEntry_alike (fuel : Nat) (hhost : view b = view a) :
    Option.Rel (Reply.Alike view) (engine.invokeEntry catalog fuel a)
      ((engine.said text).invokeEntry catalog fuel b) := by
  unfold invokeEntry
  have hprogram : (engine.said text).program = engine.program := rfl
  rw [hprogram]
  split
  · exact .some ⟨rfl, ⟨text, rfl⟩, hhost⟩
  · rename_i id _
    exact invoke_alike (fun halike => Machine.instantiate_alike hcatalog fuel id [] halike) hhost

end Engine

/-- To take the values of replies further keeps them alike. -/
theorem Reply.Alike.map_rel {first second : Option (Reply σ α)} (f : α → Except EngineError β)
    (h : Option.Rel (Reply.Alike view) first second) :
    Option.Rel (Reply.Alike view) (first.map (Reply.map f)) (second.map (Reply.map f)) :=
  rel_map h fun halike => ⟨congrArg (·.bind f) halike.result, halike.engine, halike.host⟩

namespace Engine

variable {engine : Engine} {catalog : Catalog σ} {a b : σ} {text : String}
  (hcatalog : catalog.GoesBy view)

include hcatalog

theorem perform_alike (fuel : Nat) (sources : SourceUnit) (hhost : view b = view a) :
    Option.Rel (Reply.Alike view) (engine.perform catalog fuel sources a)
      ((engine.said text).perform catalog fuel sources b) := by
  unfold perform
  rw [compile_said]
  cases engine.compile catalog sources with
  | mk result after =>
    cases result with
    | error e => exact .some ⟨rfl, ⟨text, rfl⟩, hhost⟩
    | ok linked => exact Reply.Alike.map_rel _ (execute_alike hcatalog fuel linked hhost)

theorem runUnit_alike (fuel : Nat) (sources : SourceUnit) (hhost : view b = view a) :
    Option.Rel (Reply.Alike view) (engine.runUnit catalog fuel sources a)
      ((engine.said text).runUnit catalog fuel sources b) := by
  refine rel_bind (perform_alike hcatalog fuel sources hhost) fun {reply other} h => ?_
  obtain ⟨hresult, ⟨text', hengine⟩, hview⟩ := h
  unfold Reply.andThen
  rw [hresult, hengine]
  cases reply.result with
  | error e => exact .some ⟨rfl, ⟨text', rfl⟩, hview⟩
  | ok performed => exact Reply.Alike.map_rel _ (invokeEntry_alike hcatalog fuel hview)

theorem evaluateUnit_alike (fuel : Nat) (code : String) (hhost : view b = view a) :
    Option.Rel (Reply.Alike view) (engine.evaluateUnit catalog fuel code a)
      ((engine.said text).evaluateUnit catalog fuel code b) := by
  unfold evaluateUnit
  have hmode : (engine.said text).mode = engine.mode := rfl
  rw [hmode]
  split
  · exact .some ⟨rfl, ⟨text, rfl⟩, hhost⟩
  · exact Reply.Alike.map_rel _ (perform_alike hcatalog fuel _ hhost)

end Engine

/-- The replies differ in nothing but what the view does not show of the host. -/
structure Reply.Same (view : σ → τ) (reply other : Reply σ α) : Prop where
  result : other.result = reply.result
  engine : other.engine = reply.engine
  host : view other.host = view reply.host

/-- A console line is nothing that the view shows. -/
def Unseen [HasConsole σ] (view : σ → τ) : Prop :=
  ∀ line host, view (writeLine line host) = view host

section Calls

variable [HasConsole σ] (hunseen : Unseen view) {catalog : Catalog σ} {a b : σ}

include hunseen

/-- To close a call leaves no trace of an earlier error. -/
theorem Reply.Alike.finish {reply other : Reply σ α} (h : reply.Alike view other) :
    (Engine.finish reply).Same view (Engine.finish other) := by
  obtain ⟨hresult, ⟨text, hengine⟩, hhost⟩ := h
  have hreport : other.engine.report = reply.engine.report := by
    rw [hengine]
    rfl
  unfold Engine.finish
  dsimp only
  rw [hresult, hreport, hengine]
  refine ⟨rfl, rfl, ?_⟩
  dsimp only
  split
  · exact hhost
  · exact (hunseen _ _).trans (hhost.trans (hunseen _ _).symm)

theorem Engine.call_alike {engine other : Engine} (hkept : engine.kept = other.kept)
    (hhost : view b = view a) {body : Engine → σ → Option (Reply σ α)}
    (hbody : ∀ {engine : Engine} {text : String} {a b : σ}, view b = view a →
      Option.Rel (Reply.Alike view) (body engine a) (body (engine.said text) b)) :
    Option.Rel (Reply.Same view) (engine.call a body) (other.call b body) := by
  unfold call
  rw [said_of_kept hkept]
  exact rel_map (hbody hhost) fun halike => halike.finish hunseen

variable (hcatalog : catalog.GoesBy view) {engine other : Engine}
  (hkept : engine.kept = other.kept) (hhost : view b = view a)

include hcatalog hkept hhost

theorem Engine.runSource_alike (fuel : Nat) (code : String) :
    Option.Rel (Reply.Same view) (engine.runSource catalog fuel code a)
      (other.runSource catalog fuel code b) := by
  refine call_alike hunseen hkept hhost fun {engine text a b} hhost => ?_
  have hmode : (engine.said text).mode = engine.mode := rfl
  rw [hmode]
  split
  · exact runUnit_alike hcatalog fuel _ hhost
  · exact .some ⟨rfl, ⟨text, rfl⟩, hhost⟩

theorem Engine.runProvided_alike (fuel : Nat) (provided : Except EngineError SourceUnit) :
    Option.Rel (Reply.Same view) (engine.runProvided catalog fuel provided a)
      (other.runProvided catalog fuel provided b) := by
  refine call_alike hunseen hkept hhost fun {engine text a b} hhost => ?_
  split
  · exact runUnit_alike hcatalog fuel _ hhost
  · exact .some ⟨rfl, ⟨text, rfl⟩, hhost⟩

theorem Engine.evaluate_alike (fuel : Nat) (code : String) :
    Option.Rel (Reply.Same view) (engine.evaluate catalog fuel code a)
      (other.evaluate catalog fuel code b) :=
  call_alike hunseen hkept hhost fun hhost => evaluateUnit_alike hcatalog fuel code hhost

theorem Engine.evaluateAs_alike (fuel : Nat) (kind : ValueKind) (code : String) :
    Option.Rel (Reply.Same view) (engine.evaluateAs catalog fuel kind code a)
      (other.evaluateAs catalog fuel kind code b) :=
  call_alike hunseen hkept hhost fun hhost =>
    Reply.Alike.map_rel _ (evaluateUnit_alike hcatalog fuel code hhost)

end Calls

end ScriptHost

/-! ## What the caller of an engine sees

An engine with its surroundings, the calls that can be made, and what the caller is told after each
of them. Where two sites differ in nothing but what was said in the latest call, and in what the
host functions do not see of the host, the caller sees the same from then on. -/

namespace ScriptHost

variable {σ τ α : Type}

/-- What a caller can ask of an engine. -/
inductive Request where
  | runSource (code : String)
  | run
  | evaluate (code : String)
  | evaluateAs (kind : ValueKind) (code : String)

/-- What a caller is answered. -/
inductive Answer where
  | built (result : BuildResult)
  | value (value : Option Value)

/-- An engine with the host's modules and the disk around it. -/
structure Site (σ : Type) where
  catalog : Catalog σ
  disk : Disk
  engine : Engine
  host : σ

namespace Site

/-- The site after a reply, with what the caller is told. -/
def take (site : Site σ) (answer : α → Answer) (reply : Reply σ α) :
    Except EngineError Answer × Site σ :=
  (reply.result.map answer, { site with engine := reply.engine, host := reply.host })

variable [HasConsole σ]

/-- A call. One that needs more fuel does not come back. -/
def ask (site : Site σ) (fuel : Nat) : Request → Option (Except EngineError Answer × Site σ)
  | .runSource code =>
    (site.engine.runSource site.catalog fuel code site.host).map (site.take .built)
  | .run =>
    let (reply, disk) := (site.engine.run site.catalog fuel site.host : StateM Disk _).run site.disk
    reply.map ({ site with disk }.take .built)
  | .evaluate code =>
    (site.engine.evaluate site.catalog fuel code site.host).map (site.take .value)
  | .evaluateAs kind code =>
    (site.engine.evaluateAs site.catalog fuel kind code site.host).map (site.take .value)

end Site

/-- What can happen at a site: a call, or what the host does between calls. -/
inductive Event (σ : Type) where
  | ask (fuel : Nat) (request : Request)
  | register (names : List String)
  | load (module : HostModule σ)
  | unload (name : String)
  | files (disk : Disk)

/-- What happens brings in only modules that go by the view. -/
def Event.GoesBy (view : σ → τ) : Event σ → Prop
  | .load module => module.GoesBy view
  | _ => True

/-- What the caller sees after a call. -/
structure Sight where
  result : Except EngineError Answer
  state : UnitState
  lastError : String

namespace Site

variable [HasConsole σ]

/-- What the caller sees after each of the calls that come, until one does not come back. -/
def watch (site : Site σ) : List (Event σ) → List (Option Sight)
  | [] => []
  | .ask fuel request :: rest =>
    match site.ask fuel request with
    | none => [none]
    | some (result, after) =>
      some ⟨result, after.engine.state, after.engine.lastError⟩ :: after.watch rest
  | .register names :: rest =>
    { site with engine := site.engine.registerModules site.catalog names }.watch rest
  | .load module :: rest => { site with catalog := site.catalog.load module }.watch rest
  | .unload name :: rest => { site with catalog := (site.catalog.unload name).2 }.watch rest
  | .files disk :: rest => { site with disk }.watch rest

/-- The sites differ in nothing but what was said in the latest call, and what the view does not
show of the host. -/
structure Alike (view : σ → τ) (site other : Site σ) : Prop where
  catalog : other.catalog = site.catalog
  disk : other.disk = site.disk
  kept : site.engine.kept = other.engine.kept
  host : view other.host = view site.host

variable {view : σ → τ}

/-- The same answer, and sites that differ in nothing but what the view does not show. -/
structure SameAnswer (view : σ → τ) (catalog : Catalog σ)
    (first second : Except EngineError Answer × Site σ) : Prop where
  answer : second.1 = first.1
  engine : second.2.engine = first.2.engine
  alike : first.2.Alike view second.2
  catalog : first.2.catalog = catalog

omit [HasConsole σ] in
theorem take_same {site other : Site σ} (h : site.Alike view other) (answer : α → Answer)
    {first second : Option (Reply σ α)} (hsame : Option.Rel (Reply.Same view) first second) :
    Option.Rel (SameAnswer view site.catalog) (first.map (site.take answer))
      (second.map (other.take answer)) := by
  refine rel_map hsame fun hreply => ⟨congrArg (·.map answer) hreply.result, hreply.engine, ?_, rfl⟩
  exact ⟨h.catalog, h.disk, congrArg Engine.kept hreply.engine.symm, hreply.host⟩

/-- Calls at sites that are alike have the same answers. -/
theorem ask_alike (hunseen : Unseen view) {site other : Site σ} (h : site.Alike view other)
    (hcatalog : site.catalog.GoesBy view) (fuel : Nat) (request : Request) :
    Option.Rel (SameAnswer view site.catalog) (site.ask fuel request) (other.ask fuel request) := by
  have halike := h
  obtain ⟨catalog, disk, engine, a⟩ := site
  obtain ⟨catalog', disk', engine', b⟩ := other
  obtain ⟨hcatalogs, hdisks, hkept, hhost⟩ := h
  dsimp only at hcatalogs hdisks hkept hhost hcatalog
  subst hcatalogs hdisks
  have hmode : engine'.mode = engine.mode := by
    unfold Engine.kept at hkept
    injection hkept with hmode
    exact hmode.symm
  unfold ask
  split
  · exact take_same halike _ (Engine.runSource_alike hunseen hcatalog hkept hhost fuel _)
  · rw [Engine.run_eq, Engine.run_eq, Engine.provide_congr hmode]
    exact take_same halike _ (Engine.runProvided_alike hunseen hcatalog hkept hhost fuel _)
  · exact take_same halike _ (Engine.evaluate_alike hunseen hcatalog hkept hhost fuel _)
  · exact take_same halike _ (Engine.evaluateAs_alike hunseen hcatalog hkept hhost fuel _ _)

/-- At sites that are alike the caller sees the same, whatever happens. -/
theorem watch_alike (hunseen : Unseen view) (events : List (Event σ)) {site other : Site σ}
    (h : site.Alike view other) (hcatalog : site.catalog.GoesBy view)
    (hevents : ∀ event ∈ events, event.GoesBy view) : other.watch events = site.watch events := by
  induction events generalizing site other with
  | nil => rfl
  | cons event rest ih =>
    obtain ⟨hevent, hrest⟩ := List.forall_mem_cons.mp hevents
    cases event with
    | ask fuel request =>
      have hasked := ask_alike hunseen h hcatalog fuel request
      rw [watch, watch]
      generalize site.ask fuel request = first at hasked ⊢
      generalize other.ask fuel request = second at hasked ⊢
      cases hasked with
      | none => rfl
      | some hsame =>
        rename_i first second
        obtain ⟨answer, after⟩ := first
        obtain ⟨answer', after'⟩ := second
        obtain ⟨hanswer, hengine, halike, hafter⟩ := hsame
        dsimp only at hanswer hengine halike hafter ⊢
        rw [hanswer, hengine, ih halike (hafter ▸ hcatalog) hrest]
    | register names =>
      refine ih ⟨h.catalog, h.disk, ?_, h.host⟩ hcatalog hrest
      have hkept := congrArg (Engine.registerModules · site.catalog names) h.kept
      rw [h.catalog]
      exact hkept
    | load module =>
      refine ih ⟨?_, h.disk, h.kept, h.host⟩ (hcatalog.load hevent) hrest
      exact congrArg (Catalog.load · module) h.catalog
    | unload name =>
      refine ih ⟨?_, h.disk, h.kept, h.host⟩ (hcatalog.unload name) hrest
      exact congrArg (fun catalog => (Catalog.unload catalog name).2) h.catalog
    | files disk => exact ih ⟨h.catalog, rfl, h.kept, h.host⟩ hcatalog hrest

end Site

end ScriptHost
