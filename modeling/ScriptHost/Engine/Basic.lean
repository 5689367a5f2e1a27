import ScriptHost.Console
import ScriptHost.Engine.Report
import ScriptHost.Machine.Basic
import ScriptHost.Program.Build
import ScriptHost.Project.Sources
/-!
# Engines

An engine runs scripts for one caller. What one call declares stays for the calls that follow: the
program and the values of its global variables are kept from call to call, while state, report and
last error are those of the latest call.

A call builds its sources, links them to the program, runs their top level, and then makes an object
of the entry class, unless only a value is asked for. A machine needs fuel: a call that needs more
has no reply. Sources are read beforehand, so the functions here are told what reading them gave.
-/

set_option autoImplicit false

namespace ScriptHost

/-- How far the latest call has come. -/
inductive UnitState where
  | idle
  | compiling
  | ready
  | failed
  | invoking
  | invoked
  | invokeFailed
deriving DecidableEq, Repr, Inhabited

/-- The word for a state. -/
def UnitState.name : UnitState → String
  | .idle => "idle"
  | .compiling => "compiling"
  | .ready => "ready"
  | .failed => "failed"
  | .invoking => "invoking"
  | .invoked => "invoked"
  | .invokeFailed => "invoke-failed"

/-- What building the sources of a successful call came to. -/
inductive BuildResult where
  | clean
  | warnings (count : Nat)
deriving DecidableEq, Repr, Inhabited

/-- The result with so many warnings. -/
def BuildResult.ofCount (warnings : Nat) : BuildResult :=
  if warnings = 0 then .clean else .warnings warnings

/-- The class of which an object is made after the top level has run. -/
def entryClass : String := "script.Main"

/-- How an engine works. -/
structure EngineConfig where
  /-- No warnings, warnings of code that is never reached, and of local variables too. -/
  warningLevel : Nat := 2
  /-- The most instructions that a run may carry out. -/
  instructionLimit : Option Nat := none
deriving DecidableEq, Repr, Inhabited

/-- An engine. -/
structure Engine where
  mode : SourceMode := .inline
  config : EngineConfig := {}
  state : UnitState := .idle
  program : Program := {}
  globals : Array Value := #[]
  heap : Heap := {}
  view : ModuleView := {}
  report : Report := {}
  /-- What the latest call had to say. -/
  lastError : String := ""
deriving Inhabited

/-- Sources that have been built and linked. -/
structure Linked where
  topLevel : Chunk
  returnsValue : Bool
  result : BuildResult
deriving Inhabited

/-- The end of a call, or of a part of it. -/
structure Reply (σ α : Type) where
  result : Except EngineError α
  engine : Engine
  host : σ

namespace Engine

variable {σ α β : Type}

/-- An engine whose caller hands over the sources. It may refer to no modules until some are
registered. -/
def inline (config : EngineConfig) : Engine where
  config := config

/-- An engine for the project in a directory. It may refer to all modules that are loaded. -/
def project (dir : String) (catalog : Catalog σ) (config : EngineConfig) : Engine where
  mode := .project dir
  config := config
  view := .of catalog (.all catalog)

/-- The engine with another choice of modules. -/
def registerModules (engine : Engine) (catalog : Catalog σ) (names : List String) : Engine :=
  { engine with view := .of catalog (.select catalog names) }

/-- The names of the modules that scripts may refer to. -/
def allowedModules (engine : Engine) : List String :=
  engine.view.allowed.names

/-! ## Building -/

/-- The line of a diagnostic about these sources. -/
def diagnosticLine (sources : SourceUnit) (d : Diagnostic) : String :=
  d.line (sources.origin d.span.file) (sources.text d.span.file)

/-- The engine with diagnostics reported. -/
def reportAll (engine : Engine) (sources : SourceUnit) (diagnostics : List Diagnostic) : Engine :=
  { engine with report := engine.report.appendAll (diagnostics.map (diagnosticLine sources)) }

/-- The global variables with null in the slots that are new. -/
def growGlobals (globals : Array Value) (count : Nat) : Array Value :=
  globals ++ Array.replicate (count - globals.size) Value.null

/-- What the engine's program looks like to the sources that are built next. -/
def environment (engine : Engine) (catalog : Catalog σ) : Env where
  program := engine.program
  lookup := engine.view.lookup catalog
  warningLevel := engine.config.warningLevel

/-- Links a unit whose diagnostics have been reported. -/
def link (engine : Engine) (sources : SourceUnit) (unit : CompiledUnit) (warnings : Nat) :
    Except EngineError Linked × Engine :=
  match engine.program.link unit engine.view.allowed with
  | .error e =>
    (.error (.notBuilt 1), { engine.reportAll sources [e.diagnostic] with state := .failed })
  | .ok program =>
    let globals := growGlobals engine.globals program.globalCount
    (.ok ⟨unit.topLevel, unit.returnsValue, .ofCount warnings⟩,
      { engine with state := .ready, program, globals })

/-- Builds sources and links them. -/
def compile (engine : Engine) (catalog : Catalog σ) (sources : SourceUnit) :
    Except EngineError Linked × Engine :=
  let (unit, diagnostics) := build sources.texts (engine.environment catalog)
  let engine := { engine with state := .compiling }.reportAll sources diagnostics
  let errors := diagnostics.countP Diagnostic.isError
  match unit with
  | some unit =>
    if errors = 0 then engine.link sources unit (diagnostics.length - errors)
    else (.error (.notBuilt errors), { engine with state := .failed })
  | none => (.error (.notBuilt (max errors 1)), { engine with state := .failed })

/-! ## Running -/

/-- What the machine goes by when it runs the engine's program. -/
def setting (engine : Engine) (catalog : Catalog σ) : Machine.Setting σ where
  program := engine.program
  catalog := catalog
  limit := engine.config.instructionLimit

/-- The reply after a run of the machine. -/
def settle (engine : Engine) (ending : Machine.Ending σ) : Reply σ Value :=
  let engine := { engine with globals := ending.world.globals, heap := ending.world.heap }
  match ending.result with
  | .ok value => ⟨.ok value, { engine with state := .invoked }, ending.world.host⟩
  | .error e =>
    ⟨.error (.stopped (.fault e)), { engine with state := .invokeFailed }, ending.world.host⟩

/-- Lets the machine run. -/
def invoke (engine : Engine) (host : σ) (act : World σ → Option (Machine.Ending σ)) :
    Option (Reply σ Value) :=
  let engine := { engine with state := .invoking }
  (act { globals := engine.globals, heap := engine.heap, host }).map engine.settle

/-- Runs the top level of linked sources. -/
def execute (engine : Engine) (catalog : Catalog σ) (fuel : Nat) (linked : Linked) (host : σ) :
    Option (Reply σ Value) :=
  engine.invoke host (Machine.runTopLevel (engine.setting catalog) fuel linked.topLevel)

/-- Makes an object of the entry class. -/
def invokeEntry (engine : Engine) (catalog : Catalog σ) (fuel : Nat) (host : σ) :
    Option (Reply σ Value) :=
  match engine.program.classNames.get? entryClass with
  | none =>
    some ⟨.error (.missingEntry entryClass), { engine with state := .invokeFailed }, host⟩
  | some id =>
    engine.invoke host (Machine.instantiate (engine.setting catalog) fuel id [])

end Engine

/-! ## Calls -/

namespace Reply

variable {σ α β : Type}

/-- Goes on after a part of a call that may have failed. -/
def andThen (reply : Reply σ α) (next : α → Engine → σ → Option (Reply σ β)) :
    Option (Reply σ β) :=
  match reply.result with
  | .ok a => next a reply.engine reply.host
  | .error e => some ⟨.error e, reply.engine, reply.host⟩

/-- The reply with its value taken further. -/
def map (f : α → Except EngineError β) (reply : Reply σ α) : Reply σ β :=
  ⟨reply.result.bind f, reply.engine, reply.host⟩

end Reply

namespace Engine

variable {σ α : Type}

/-- The engine at the start of a call. -/
def begin (engine : Engine) : Engine :=
  { engine with report := {}, state := .idle }

/-- The report at the end of a call. -/
def closingReport (report : Report) (result : Except EngineError α) : Report :=
  match result with
  | .ok _ => report
  | .error e => report.appendAll e.reportLine?.toList

/-- Closes a call: an error is reported, and what has been reported is shown and kept. -/
def finish [HasConsole σ] (reply : Reply σ α) : Reply σ α :=
  let report := closingReport reply.engine.report reply.result
  let lastError := report.snapshot
  { result := reply.result
    engine := { reply.engine with report, lastError }
    host := if lastError.isEmpty then reply.host else Banner.reportError lastError reply.host }

/-- A call. -/
def call [HasConsole σ] (engine : Engine) (host : σ)
    (body : Engine → σ → Option (Reply σ α)) : Option (Reply σ α) :=
  (body engine.begin host).map finish

/-- Builds and links sources and runs their top level. -/
def perform (engine : Engine) (catalog : Catalog σ) (fuel : Nat) (sources : SourceUnit)
    (host : σ) : Option (Reply σ (Linked × Value)) :=
  match engine.compile catalog sources with
  | (.error e, engine) => some ⟨.error e, engine, host⟩
  | (.ok linked, engine) =>
    (engine.execute catalog fuel linked host).map (Reply.map fun value => .ok (linked, value))

/-- Runs sources as a whole: their top level, then the entry class. -/
def runUnit (engine : Engine) (catalog : Catalog σ) (fuel : Nat) (sources : SourceUnit)
    (host : σ) : Option (Reply σ BuildResult) := do
  let reply ← engine.perform catalog fuel sources host
  reply.andThen fun (linked, _) engine host =>
    (engine.invokeEntry catalog fuel host).map (Reply.map fun _ => .ok linked.result)

/-- The value of sources whose top level ends with an expression. -/
def evaluateUnit (engine : Engine) (catalog : Catalog σ) (fuel : Nat) (code : String) (host : σ) :
    Option (Reply σ (Option Value)) :=
  match engine.mode with
  | .project _ => some ⟨.error (.wrongMode .evaluate engine.mode), engine, host⟩
  | .inline =>
    (engine.perform catalog fuel (.inline code) host).map
      (Reply.map fun (linked, value) => .ok (if linked.returnsValue then some value else none))

/-- Runs a source text that the caller hands over. -/
def runSource [HasConsole σ] (engine : Engine) (catalog : Catalog σ) (fuel : Nat) (code : String)
    (host : σ) : Option (Reply σ BuildResult) :=
  engine.call host fun engine host =>
    match engine.mode with
    | .inline => engine.runUnit catalog fuel (.inline code) host
    | .project _ => some ⟨.error (.wrongMode .runSource engine.mode), engine, host⟩

/-- Runs the sources of a project, given what reading them led to. -/
def runProvided [HasConsole σ] (engine : Engine) (catalog : Catalog σ) (fuel : Nat)
    (provided : Except EngineError SourceUnit) (host : σ) : Option (Reply σ BuildResult) :=
  engine.call host fun engine host =>
    match provided with
    | .ok sources => engine.runUnit catalog fuel sources host
    | .error e => some ⟨.error e, engine, host⟩

/-- The sources of the engine's project. -/
def provide {m : Type → Type} [Monad m] [FileAccess m] (engine : Engine) :
    m (Except EngineError SourceUnit) :=
  match engine.mode with
  | .inline => return .error (.wrongMode .run engine.mode)
  | .project dir => Project.provide dir

/-- Reads the sources of the engine's project and runs them. -/
def run {m : Type → Type} [Monad m] [FileAccess m] [HasConsole σ] (engine : Engine)
    (catalog : Catalog σ) (fuel : Nat) (host : σ) : m (Option (Reply σ BuildResult)) := do
  return engine.runProvided catalog fuel (← engine.provide) host

/-- Runs a source text for the value of its last expression. The entry class has no part in it. -/
def evaluate [HasConsole σ] (engine : Engine) (catalog : Catalog σ) (fuel : Nat) (code : String)
    (host : σ) : Option (Reply σ (Option Value)) :=
  engine.call host fun engine host => engine.evaluateUnit catalog fuel code host

/-- A value as one of a kind that the caller expects. -/
def convertTo (kind : ValueKind) : Option Value → Except EngineError (Option Value)
  | none => .ok none
  | some value =>
    match value.convert kind with
    | .ok value => .ok (some value)
    | .error mismatch => .error (.stopped (.conversion mismatch))

/-- Runs a source text for the value of its last expression, which must be of a kind. -/
def evaluateAs [HasConsole σ] (engine : Engine) (catalog : Catalog σ) (fuel : Nat)
    (kind : ValueKind) (code : String) (host : σ) : Option (Reply σ (Option Value)) :=
  engine.call host fun engine host =>
    (engine.evaluateUnit catalog fuel code host).map (Reply.map (convertTo kind))

end Engine

end ScriptHost
