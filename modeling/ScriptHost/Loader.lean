import ScriptHost.Settings.Basic
/-!
# The loader

A loader runs what its settings name, a script or a project, every time its key is pressed. Each run
has an engine of its own, so nothing that one run declares is there in the next. Banners stand
around what a run shows.
-/

set_option autoImplicit false

namespace ScriptHost

/-- A loader over a host's catalog. -/
structure Loader (σ : Type) where
  settings : Settings
  trigger : EdgeTrigger
  catalog : Catalog σ

/-- What a run is made from, as far as it could be read. -/
inductive Job where
  /-- The project in a directory. -/
  | project (dir : String) (sources : Except EngineError SourceUnit)
  | script (code : Except EngineError String)

/-- Reads what the settings name. -/
def Settings.fetch {m : Type → Type} [Monad m] [FileAccess m] (settings : Settings) : m Job := do
  match settings.projectDir with
  | some dir => return .project dir (← Project.provide dir)
  | none => return .script (← Project.readSource settings.filePath)

/-- What a run came to, and the host after it. -/
abbrev RunOutcome (σ : Type) := Except EngineError BuildResult × σ

namespace Loader

variable {σ : Type}

/-- A loader at rest. -/
def new (settings : Settings) (catalog : Catalog σ) : Loader σ :=
  ⟨settings, { key := settings.key }, catalog⟩

/-- Runs a job on a new engine. -/
def execute [HasConsole σ] (loader : Loader σ) (fuel : Nat) (job : Job) (host : σ) :
    Option (RunOutcome σ) :=
  let config := loader.settings.engineConfig
  match job with
  | .project dir sources =>
    ((Engine.project dir loader.catalog config).runProvided loader.catalog fuel sources host).map
      fun reply => (reply.result, reply.host)
  | .script (.error e) =>
    some (.error e, Banner.writeLines (e.reportLine?.toList.map Banner.errorReport) host)
  | .script (.ok code) =>
    let engine :=
      (Engine.inline config).registerModules loader.catalog loader.settings.allowedModules
    (engine.runSource loader.catalog fuel code host).map fun reply => (reply.result, reply.host)

/-- Runs a job, with banners around what it shows. -/
def runJob [HasConsole σ] (loader : Loader σ) (fuel : Nat) (job : Job) (host : σ) :
    Option (RunOutcome σ) :=
  (loader.execute fuel job (Banner.loading host)).map fun (result, host) =>
    (result, Banner.done host)

variable {m : Type → Type} [Monad m] [FileAccess m]

/-- Reads what the settings name, and runs it. -/
def runOnce [HasConsole σ] (loader : Loader σ) (fuel : Nat) (host : σ) :
    m (Option (RunOutcome σ)) := do
  return loader.runJob fuel (← loader.settings.fetch) host

/-- What became of an event: the loader, and the run if there was one. -/
abbrev EventOutcome (σ : Type) := Loader σ × Option (Option (RunOutcome σ))

/-- Takes notice of a key, and runs once if it is the trigger key and has just been pressed. -/
def handle [HasConsole σ] (loader : Loader σ) (fuel : Nat) (event : KeyEvent) (host : σ) :
    m (EventOutcome σ) := do
  let (fired, trigger) := loader.trigger.handle event
  let loader := { loader with trigger }
  if fired then return (loader, some (← loader.runOnce fuel host))
  else return (loader, none)

end Loader

end ScriptHost
