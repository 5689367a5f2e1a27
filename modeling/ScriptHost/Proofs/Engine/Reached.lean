import ScriptHost.Engine.Basic
import ScriptHost.Proofs.Machine.Known
/-!
# Sessions with an engine

A session is an engine with what is around it. `Session.Reached` lists the steps of which all calls
of an engine are made, and what the host may do between them: choose modules, load and unload them,
change its own state. In every session that is reached the program and all top levels that linking
has handed out are sound.
-/

set_option autoImplicit false

namespace ScriptHost

variable {σ : Type}

/-- The catalogs that a host can have which loads only some modules, in any order, and unloads
others. -/
inductive Catalog.Made (modules : HostModule σ → Prop) : Catalog σ → Prop
  | empty : Made modules {}
  | load {catalog : Catalog σ} {module : HostModule σ} (made : Made modules catalog)
      (allowed : modules module) : Made modules (catalog.load module)
  | unload {catalog : Catalog σ} (made : Made modules catalog) (name : String) :
      Made modules (catalog.unload name).2

/-- Every catalog that a host can have is numbered. -/
theorem Catalog.Made.numbered {modules : HostModule σ → Prop} {catalog : Catalog σ}
    (h : catalog.Made modules) : catalog.Numbered := by
  induction h with
  | empty => exact numbered_empty
  | load _ _ ih => exact ih.load _
  | unload _ name ih => exact ih.unload name

/-- Modules that keep to the objects at hand make a catalog that does. -/
theorem Catalog.Made.keeps {modules : HostModule σ → Prop} {held : σ → ObjectRef → Prop}
    (hmodules : ∀ module, modules module → module.Keeps held) {catalog : Catalog σ}
    (h : catalog.Made modules) : catalog.Keeps held := by
  induction h with
  | empty => exact keeps_empty
  | load _ allowed ih => exact ih.load (hmodules _ allowed)
  | unload _ name ih => exact ih.unload name

namespace Engine

/-- What an engine keeps from call to call is the same in another. -/
structure SameStore (engine after : Engine) : Prop where
  program : after.program = engine.program
  globals : after.globals = engine.globals
  heap : after.heap = engine.heap

/-- To close a call changes nothing that is kept. -/
theorem finish_same [HasConsole σ] {α : Type} {engine : Engine} {host : σ}
    {result : Except EngineError α} {reply : Reply σ α}
    (h : finish ⟨result, engine, host⟩ = reply) : engine.SameStore reply.engine := by
  subst h
  exact ⟨rfl, rfl, rfl⟩

/-- An engine has linked a unit that was built from these sources: the program has grown, and the
global variables that are new are null. -/
structure Links (engine after : Engine) (catalog : Catalog σ) (sources : SourceUnit)
    (topLevel : Chunk) : Prop where
  built : ∃ unit diagnostics,
    build sources.texts (engine.environment catalog) = (some unit, diagnostics) ∧
      engine.program.link unit engine.view.allowed = .ok after.program ∧ unit.topLevel = topLevel
  globals : after.globals = growGlobals engine.globals after.program.globalCount
  heap : after.heap = engine.heap

/-- Sources are linked, or nothing happens to the program. -/
theorem compile_cases (engine : Engine) (catalog : Catalog σ) (sources : SourceUnit) :
    (∃ e, (engine.compile catalog sources).1 = .error e ∧
        engine.SameStore (engine.compile catalog sources).2) ∨
      ∃ linked, (engine.compile catalog sources).1 = .ok linked ∧
        engine.Links (engine.compile catalog sources).2 catalog sources linked.topLevel := by
  unfold compile
  cases hbuild : build sources.texts (engine.environment catalog) with
  | mk built diagnostics =>
    dsimp only
    cases built with
    | none => exact .inl ⟨_, rfl, rfl, rfl, rfl⟩
    | some unit =>
      dsimp only
      split
      · unfold Engine.link
        cases hlink : engine.program.link unit engine.view.allowed with
        | error e =>
          simp only [reportAll, hlink]
          exact .inl ⟨_, rfl, rfl, rfl, rfl⟩
        | ok program =>
          simp only [reportAll, hlink]
          exact .inr ⟨_, rfl, ⟨unit, diagnostics, hbuild, hlink, rfl⟩, rfl, rfl⟩
      · exact .inl ⟨_, rfl, rfl, rfl, rfl⟩

/-- To build sources does not change how the engine is configured. -/
theorem compile_config (engine : Engine) (catalog : Catalog σ) (sources : SourceUnit) :
    (engine.compile catalog sources).2.config = engine.config := by
  unfold compile
  cases build sources.texts (engine.environment catalog) with
  | mk built diagnostics =>
    dsimp only
    cases built with
    | none => rfl
    | some unit =>
      dsimp only
      split
      · unfold Engine.link
        split <;> rfl
      · rfl

/-- A reply comes with what the run has made of the world, and the program is the same. -/
theorem invoke_reply {engine : Engine} {host : σ} {act : World σ → Option (Machine.Ending σ)}
    {reply : Reply σ Value} (h : engine.invoke host act = some reply) :
    ∃ ending, act ⟨engine.globals, engine.heap, host⟩ = some ending ∧
      reply.engine.program = engine.program ∧
      World.mk reply.engine.globals reply.engine.heap reply.host = ending.world := by
  obtain ⟨ending, hact, rfl⟩ := Option.map_eq_some_iff.mp h
  refine ⟨ending, hact, ?_, ?_⟩
  · unfold settle
    cases ending.result <;> rfl
  · unfold settle
    cases ending.result <;> rfl

end Engine

/-- An engine, the modules that are loaded, and the state of the host. -/
structure Session (σ : Type) where
  catalog : Catalog σ
  engine : Engine
  host : σ
  /-- The top levels that linking has handed out, the latest first. -/
  tops : List Chunk := []

namespace Session

/-- The world in which the engine runs scripts. -/
def world (s : Session σ) : World σ where
  globals := s.engine.globals
  heap := s.engine.heap
  host := s.host

/-- What the machine goes by when the engine lets it run. -/
def setting (s : Session σ) : Machine.Setting σ :=
  s.engine.setting s.catalog

/-- The session after sources have been built and linked. -/
def compile (s : Session σ) (sources : SourceUnit) : Session σ where
  catalog := s.catalog
  engine := (s.engine.compile s.catalog sources).2
  host := s.host
  tops :=
    match (s.engine.compile s.catalog sources).1 with
    | .ok linked => linked.topLevel :: s.tops
    | .error _ => s.tops

/-- The session after a reply of the engine. -/
def after {α : Type} (s : Session σ) (reply : Reply σ α) : Session σ :=
  { s with engine := reply.engine, host := reply.host }

/-- The sessions that can be reached with engines that start afresh. Only some modules are ever
loaded. What the host has at hand is for `held` to say: nothing at first, and later only what calls
of host functions have given it. -/
inductive Reached (modules : HostModule σ → Prop) (held : σ → ObjectRef → Prop) :
    Session σ → Prop
  | inline {catalog : Catalog σ} {host : σ} (made : catalog.Made modules)
      (empty : ∀ object, ¬ held host object) (config : EngineConfig) :
      Reached modules held { catalog, engine := .inline config, host }
  | project {catalog : Catalog σ} {host : σ} (made : catalog.Made modules)
      (empty : ∀ object, ¬ held host object) (dir : String) (config : EngineConfig) :
      Reached modules held { catalog, engine := .project dir catalog config, host }
  | load {s : Session σ} {module : HostModule σ} (reached : Reached modules held s)
      (allowed : modules module) :
      Reached modules held { s with catalog := s.catalog.load module }
  | unload {s : Session σ} (reached : Reached modules held s) (name : String) :
      Reached modules held { s with catalog := (s.catalog.unload name).2 }
  | host {s : Session σ} {host : σ} (reached : Reached modules held s)
      (fewer : ∀ object, held host object → held s.host object) :
      Reached modules held { s with host }
  | register {s : Session σ} (reached : Reached modules held s) (names : List String) :
      Reached modules held { s with engine := s.engine.registerModules s.catalog names }
  | begin {s : Session σ} (reached : Reached modules held s) :
      Reached modules held { s with engine := s.engine.begin }
  | compile {s : Session σ} (reached : Reached modules held s) (sources : SourceUnit) :
      Reached modules held (s.compile sources)
  | execute {s : Session σ} {fuel : Nat} {linked : Linked} {reply : Reply σ Value}
      (reached : Reached modules held s) (handedOut : linked.topLevel ∈ s.tops)
      (replied : s.engine.execute s.catalog fuel linked s.host = some reply) :
      Reached modules held (s.after reply)
  | invokeEntry {s : Session σ} {fuel : Nat} {reply : Reply σ Value}
      (reached : Reached modules held s)
      (replied : s.engine.invokeEntry s.catalog fuel s.host = some reply) :
      Reached modules held (s.after reply)
  | finish [HasConsole σ] {α : Type} {s : Session σ} {result : Except EngineError α}
      {reply : Reply σ α} (reached : Reached modules held s)
      (finished : Engine.finish ⟨result, s.engine, s.host⟩ = reply)
      (fewer : ∀ object, held reply.host object → held s.host object) :
      Reached modules held (s.after reply)

/-- The program of a session is sound, and so are the top levels that have been handed out. -/
structure Sound (s : Session σ) : Prop where
  numbered : s.catalog.Numbered
  program : s.engine.program.Sound (HostBinding.Accepted s.catalog)
  tops : ∀ chunk ∈ s.tops,
    chunk.Sound s.engine.program (HostBinding.Accepted s.catalog) False

/-- A session stays sound when modules are loaded or unloaded. -/
theorem Sound.withCatalog {s : Session σ} (h : s.Sound) {catalog : Catalog σ}
    (hnumbered : catalog.Numbered) (hlater : s.catalog.Later catalog) :
    Sound { s with catalog } where
  numbered := hnumbered
  program := h.program.mono fun _ _ _ haccepted => haccepted.later hlater
  tops := fun chunk hchunk =>
    (h.tops chunk hchunk).mono (.refl _) fun _ _ _ haccepted => haccepted.later hlater

/-- A session stays sound when sources are linked. -/
theorem Sound.compile {s : Session σ} (h : s.Sound) (sources : SourceUnit) :
    (s.compile sources).Sound := by
  unfold Session.compile
  obtain ⟨e, hresult, hsame⟩ | ⟨linked, hresult, hlinks⟩ :=
    s.engine.compile_cases s.catalog sources
  · rw [hresult]
    exact ⟨h.numbered, hsame.program ▸ h.program, hsame.program ▸ h.tops⟩
  · rw [hresult]
    obtain ⟨unit, diagnostics, hbuild, hlink, htop⟩ := hlinks.built
    obtain ⟨d, resolved, hbuilt⟩ := build_sound h.program.toIndexed hbuild
    obtain ⟨hprogram, htopLevel⟩ := Program.Sound.append h.program hbuilt
      fun _ _ _ _ hfound haccepts => ModuleView.accepted_of_lookup h.numbered hfound haccepts
    obtain ⟨-, -, -, happend⟩ := link_ok hlink
    have hext := s.engine.program.extends_append unit s.engine.view.allowed
    rw [← happend] at hext
    refine ⟨h.numbered, happend ▸ hprogram, List.forall_mem_cons.mpr ⟨?_, fun chunk hchunk => ?_⟩⟩
    · rw [happend, ← htop]
      exact htopLevel
    · exact (h.tops chunk hchunk).mono hext fun _ _ _ haccepted => haccepted

/-- Sources that are built without a diagnostic are linked, if their numbers start where the tables
end. -/
theorem compile_of_build {s : Session σ} {sources : SourceUnit} {unit : CompiledUnit}
    (hbuild : build sources.texts (s.engine.environment s.catalog) = (some unit, []))
    (haccepts : s.engine.program.accepts unit = true) :
    (s.compile sources).tops = unit.topLevel :: s.tops ∧
      (s.compile sources).engine.program =
        s.engine.program.append unit s.engine.view.allowed := by
  have hlink : s.engine.program.link unit s.engine.view.allowed =
      .ok (s.engine.program.append unit s.engine.view.allowed) := by
    rw [Program.link, if_pos haccepts]
  have hcompile : (s.engine.compile s.catalog sources).1 =
        .ok ⟨unit.topLevel, unit.returnsValue, .ofCount 0⟩ ∧
      (s.engine.compile s.catalog sources).2.program =
        s.engine.program.append unit s.engine.view.allowed := by
    simp [Engine.compile, hbuild, Engine.link, Engine.reportAll, hlink]
  unfold Session.compile
  exact ⟨by rw [hcompile.1], hcompile.2⟩

/-- A session stays sound when the engine replies, as the program is the same. -/
theorem Sound.after {α : Type} {s : Session σ} (h : s.Sound) {reply : Reply σ α}
    (hprogram : reply.engine.program = s.engine.program) : (s.after reply).Sound :=
  ⟨h.numbered, hprogram ▸ h.program, hprogram ▸ h.tops⟩

/-- A reply to the demand for an object of the entry class leaves the program alone. -/
theorem invokeEntry_program {s : Session σ} {fuel : Nat} {reply : Reply σ Value}
    (h : s.engine.invokeEntry s.catalog fuel s.host = some reply) :
    reply.engine.program = s.engine.program := by
  unfold Engine.invokeEntry at h
  split at h
  · cases h
    rfl
  · obtain ⟨-, -, hprogram, -⟩ := Engine.invoke_reply h
    exact hprogram

/-- Every session that is reached is sound. -/
theorem Reached.sound {modules : HostModule σ → Prop} {held : σ → ObjectRef → Prop}
    {s : Session σ} (h : s.Reached modules held) : s.Sound := by
  induction h with
  | inline made _ config => exact ⟨made.numbered, Program.sound_empty _, nofun⟩
  | project made _ dir config => exact ⟨made.numbered, Program.sound_empty _, nofun⟩
  | load _ _ ih => exact ih.withCatalog (ih.numbered.load _) (ih.numbered.later_load _)
  | unload _ name ih =>
    exact ih.withCatalog (ih.numbered.unload name) (ih.numbered.later_unload name)
  | host _ _ ih | register _ _ ih | begin _ ih => exact ⟨ih.numbered, ih.program, ih.tops⟩
  | finish _ finished _ ih => exact ih.after (Engine.finish_same finished).program
  | compile _ sources ih => exact ih.compile sources
  | execute _ _ replied ih =>
    obtain ⟨-, -, hprogram, -⟩ := Engine.invoke_reply replied
    exact ih.after hprogram
  | invokeEntry _ replied ih => exact ih.after (invokeEntry_program replied)

/-! ## Runs -/

/-- The states in which the engine starts a run: at the top level of sources that it has linked, or
where an object of the entry class is made. -/
inductive Starts (s : Session σ) : Machine.State σ → Prop
  | topLevel {chunk : Chunk} (handedOut : chunk ∈ s.tops) :
      Starts s ⟨.start Machine.topLevelName chunk none [] .value, [], 0, s.world⟩
  | entry {id : Nat} {frame : Frame} {fields : Fields}
      (named : s.engine.program.classNames.get? entryClass = some id)
      (made : Machine.construct s.engine.program id [] s.world.heap = .ok (frame, fields)) :
      Starts s ⟨frame, [], 0, { s.world with heap := s.world.heap.alloc fields }⟩

/-- The reply of the engine to the end of a run. -/
def settle (s : Session σ) (ending : Machine.Ending σ) : Reply σ Value :=
  Engine.settle { s.engine with state := .invoking } ending

/-- The engine runs the top level of sources that it has linked. -/
theorem execute_runs {s : Session σ} {linked : Linked} (h : linked.topLevel ∈ s.tops) :
    ∃ first, s.Starts first ∧ ∀ fuel, s.engine.execute s.catalog fuel linked s.host =
      (Machine.run s.setting fuel first).map s.settle :=
  ⟨_, .topLevel h, fun _ => rfl⟩

/-- The engine makes an object of the entry class, unless there is none. -/
theorem invokeEntry_runs {s : Session σ} (h : s.Sound) :
    (∃ reply : Reply σ Value, reply.result = .error (.missingEntry entryClass) ∧
        s.world = ⟨reply.engine.globals, reply.engine.heap, reply.host⟩ ∧
        ∀ fuel, s.engine.invokeEntry s.catalog fuel s.host = some reply) ∨
      ∃ first, s.Starts first ∧ ∀ fuel, s.engine.invokeEntry s.catalog fuel s.host =
        (Machine.run s.setting fuel first).map s.settle := by
  unfold Engine.invokeEntry
  cases hnamed : s.engine.program.classNames.get? entryClass with
  | none => exact .inl ⟨_, rfl, rfl, fun _ => rfl⟩
  | some id =>
    have hclass := Array.getElem?_eq_getElem (h.program.classNames entryClass id hnamed)
    obtain ⟨made, hmade⟩ :=
      Machine.construct_starts h.program.toIndexed hclass (fun _ => rfl) s.world.heap
    refine .inr ⟨_, .entry hnamed hmade, fun fuel => ?_⟩
    have hrun : Machine.instantiate s.setting fuel id [] s.world = Machine.run s.setting fuel
        ⟨made.1, [], 0, { s.world with heap := s.world.heap.alloc made.2 }⟩ := by
      unfold Machine.instantiate
      rw [show Machine.construct s.setting.program id [] s.world.heap = .ok made from hmade]
    exact congrArg (Option.map s.settle) hrun

/-- A run of a sound session starts in a safe state. -/
theorem Starts.safe {s : Session σ} {first : Machine.State σ} (h : s.Starts first)
    (hsound : s.Sound) : first.Safe s.setting := by
  cases h with
  | topLevel handedOut => exact Machine.safe_of_topLevel (hsound.tops _ handedOut) s.world
  | entry _ made => exact Machine.safe_of_construct hsound.program made _

end Session

end ScriptHost

/-! ## Calls of an engine

Every call of an engine is made of the steps that `Session.Reached` lists: whatever the sources, and
whether the call succeeds, fails or faults, what it leaves behind is reached again. So what holds of
all sessions that are reached holds between and during all calls. -/

namespace ScriptHost

variable {σ α : Type} {modules : HostModule σ → Prop} {held : σ → ObjectRef → Prop}

namespace Session

/-- A reply leads to a session that is reached. Top levels may have been handed out meanwhile. -/
def Replies (modules : HostModule σ → Prop) (held : σ → ObjectRef → Prop) (s : Session σ)
    (reply : Reply σ α) : Prop :=
  ∃ tops, Reached modules held
    { s with engine := reply.engine, host := reply.host, tops := tops ++ s.tops }

/-- A reply without a run. -/
theorem Reached.replies {s : Session σ} (h : s.Reached modules held)
    (result : Except EngineError α) :
    s.Replies modules held (.mk result s.engine s.host) :=
  ⟨[], h⟩

/-- To take the value of a reply further changes nothing else. -/
theorem Replies.map {β : Type} {s : Session σ} {reply : Reply σ α}
    (h : s.Replies modules held reply) (f : α → Except EngineError β) :
    s.Replies modules held (reply.map f) :=
  h

/-- Sources are built, linked and run. -/
theorem Reached.perform {s : Session σ} (h : s.Reached modules held) {fuel : Nat}
    {sources : SourceUnit} {reply : Reply σ (Linked × Value)}
    (hreply : s.engine.perform s.catalog fuel sources s.host = some reply) :
    s.Replies modules held reply := by
  have hcompiled := h.compile sources
  unfold Engine.perform at hreply
  unfold Session.compile at hcompiled
  cases hcompile : s.engine.compile s.catalog sources with
  | mk result engine =>
    rw [hcompile] at hreply hcompiled
    cases result with
    | error e =>
      cases hreply
      exact ⟨[], hcompiled⟩
    | ok linked =>
      obtain ⟨ran, hran, rfl⟩ := Option.map_eq_some_iff.mp hreply
      exact ⟨[linked.topLevel], hcompiled.execute List.mem_cons_self hran⟩

/-- Sources are run as a whole. -/
theorem Reached.runUnit {s : Session σ} (h : s.Reached modules held) {fuel : Nat}
    {sources : SourceUnit} {reply : Reply σ BuildResult}
    (hreply : s.engine.runUnit s.catalog fuel sources s.host = some reply) :
    s.Replies modules held reply := by
  obtain ⟨performed, hperformed, hreply⟩ := Option.bind_eq_some_iff.mp hreply
  obtain ⟨tops, hreached⟩ := h.perform hperformed
  unfold Reply.andThen at hreply
  split at hreply
  · obtain ⟨invoked, hinvoked, rfl⟩ := Option.map_eq_some_iff.mp hreply
    exact ⟨tops, hreached.invokeEntry hinvoked⟩
  · cases hreply
    exact ⟨tops, hreached⟩

/-- The value of sources is found. -/
theorem Reached.evaluateUnit {s : Session σ} (h : s.Reached modules held) {fuel : Nat}
    {code : String} {reply : Reply σ (Option Value)}
    (hreply : s.engine.evaluateUnit s.catalog fuel code s.host = some reply) :
    s.Replies modules held reply := by
  unfold Engine.evaluateUnit at hreply
  split at hreply
  · cases hreply
    exact h.replies _
  · obtain ⟨performed, hperformed, rfl⟩ := Option.map_eq_some_iff.mp hreply
    exact (h.perform hperformed).map _

variable [HasConsole σ]
  (console : ∀ line (host : σ) object, held (writeLine line host) object → held host object)

include console

/-- A call is closed. -/
theorem Replies.finish {s : Session σ} {reply : Reply σ α} (h : s.Replies modules held reply) :
    s.Replies modules held (Engine.finish reply) := by
  obtain ⟨tops, hreached⟩ := h
  refine ⟨tops, hreached.finish rfl fun object hobject => ?_⟩
  unfold Engine.finish at hobject
  dsimp only at hobject
  split at hobject
  · exact hobject
  · exact console _ _ object hobject

/-- A call is what it does, once it has begun and until it is closed. -/
theorem Reached.call {s : Session σ} (h : s.Reached modules held)
    {body : Engine → σ → Option (Reply σ α)}
    (hbody : ∀ {begun : Session σ} {reply : Reply σ α}, begun.Reached modules held →
      begun.catalog = s.catalog → body begun.engine begun.host = some reply →
        begun.Replies modules held reply)
    {reply : Reply σ α} (hreply : s.engine.call s.host body = some reply) :
    s.Replies modules held reply := by
  obtain ⟨inner, hinner, rfl⟩ := Option.map_eq_some_iff.mp hreply
  have hreplies := hbody h.begin rfl hinner
  exact Replies.finish console hreplies

/-- A source text is run. -/
theorem Reached.runSource {s : Session σ} (h : s.Reached modules held) {fuel : Nat}
    {code : String} {reply : Reply σ BuildResult}
    (hreply : s.engine.runSource s.catalog fuel code s.host = some reply) :
    s.Replies modules held reply := by
  refine h.call console (fun {begun inner} hbegun hcatalog hinner => ?_) hreply
  rw [← hcatalog] at hinner
  split at hinner
  · exact hbegun.runUnit hinner
  · cases hinner
    exact hbegun.replies _

/-- The sources of a project are run, or reading them has failed. -/
theorem Reached.runProvided {s : Session σ} (h : s.Reached modules held) {fuel : Nat}
    {provided : Except EngineError SourceUnit} {reply : Reply σ BuildResult}
    (hreply : s.engine.runProvided s.catalog fuel provided s.host = some reply) :
    s.Replies modules held reply := by
  refine h.call console (fun {begun inner} hbegun hcatalog hinner => ?_) hreply
  rw [← hcatalog] at hinner
  split at hinner
  · exact hbegun.runUnit hinner
  · cases hinner
    exact hbegun.replies _

/-- A source text is run for its value. -/
theorem Reached.evaluate {s : Session σ} (h : s.Reached modules held) {fuel : Nat} {code : String}
    {reply : Reply σ (Option Value)}
    (hreply : s.engine.evaluate s.catalog fuel code s.host = some reply) :
    s.Replies modules held reply := by
  refine h.call console (fun {begun inner} hbegun hcatalog hinner => ?_) hreply
  rw [← hcatalog] at hinner
  exact hbegun.evaluateUnit hinner

/-- A source text is run for a value of some kind. -/
theorem Reached.evaluateAs {s : Session σ} (h : s.Reached modules held) {fuel : Nat}
    {kind : ValueKind} {code : String} {reply : Reply σ (Option Value)}
    (hreply : s.engine.evaluateAs s.catalog fuel kind code s.host = some reply) :
    s.Replies modules held reply := by
  refine h.call console (fun {begun inner} hbegun hcatalog hinner => ?_) hreply
  rw [← hcatalog] at hinner
  obtain ⟨evaluated, hevaluated, rfl⟩ := Option.map_eq_some_iff.mp hinner
  exact (hbegun.evaluateUnit hevaluated).map _

end Session

end ScriptHost
