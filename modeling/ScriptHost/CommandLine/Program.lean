import ScriptHost.CommandLine.Arguments
import ScriptHost.CommandLine.Terminal
import ScriptHost.Loader
import ScriptHost.Settings.File
/-!
# The program on the command line

The program reads its settings, lets options take their place, and carries out one command. It ends
with an exit code: 0 if all went well, 1 if a run failed or the input could not be read, 2 if the
arguments are not understood. Commands need fuel, for the machine and for the lines of input; with
too little there is no exit code.
-/

set_option autoImplicit false

namespace ScriptHost

/-- What the program calls itself on the command line. -/
def programName : String := "script-loader"

/-- The line that tells the version. -/
def versionLine : String :=
  s!"{programName} {hostVersion}"

/-- The lines that tell how the program is called. -/
def helpLines : List String :=
  ["Compile and run scripts against host modules", "",
    s!"Usage: {programName} [OPTIONS] <COMMAND>", "",
    "Commands:",
    "  run       Run a script file once (defaults to the configured file)",
    "  project   Run the project in DIR once",
    "  eval      Evaluate code and print its value",
    "  repl      Evaluate lines of input against one engine",
    "  listen    Read key events and run on each press",
    "  modules   List host modules and mark the allowed ones",
    "  settings  Print the effective settings", "",
    "Options:",
    "  --config-dir <DIR>       Directory that holds the settings",
    "  --key <KEY>              Key that starts a run",
    "  --allow <MODULE>         Allow a host module; may be repeated",
    "  --warning-level <LEVEL>  0, 1 or 2"]

namespace CommandLine

/-- The directory of the settings: the one that an option names, or else the environment. -/
def configDir (options : Options) (environment : Option String) : String :=
  options.configDir.getD ((environment.filter (!·.isEmpty)).getD defaultConfigDir)

/-- The settings with options in their place. -/
def overridden (settings : Settings) (options : Options) : Settings :=
  { settings with
    scriptKey := options.key.getD settings.scriptKey
    allowedModules := if options.allow.isEmpty then settings.allowedModules else options.allow
    warningLevel := options.warningLevel.getD settings.warningLevel }

/-- The state of the host while a call runs: the lines that it has written. -/
abbrev Lines := Console

/-- The modules that scripts may call. -/
def hostCatalog : Catalog Lines := Standard.catalog

/-- The engine that evaluates source texts. -/
def evaluator (settings : Settings) : Engine :=
  (Engine.inline settings.engineConfig).registerModules hostCatalog settings.allowedModules

/-- The marker and the functions of a module on one line. -/
def moduleLine (settings : Settings) (module : HostModule Lines) : String :=
  let marker := if settings.allowedModules.contains module.name then "*" else " "
  let functions := module.functions.entries.map fun (name, f) => s!"{name}({f.arity.text})"
  s!"{marker} {module.name}: " ++ ", ".intercalate functions

/-- The key events that a line tells: a press or a release, or both for a key alone. -/
def keyEvents (line : String) : List KeyEvent :=
  match (line.split isBlank).toList.map (·.copy) |>.filter (!·.isEmpty) with
  | [] => []
  | name :: rest =>
    match Key.parse name, rest.head?.map String.toLower with
    | .error _, _ => []
    | .ok key, none => [⟨key, true⟩, ⟨key, false⟩]
    | .ok key, some "down" => [⟨key, true⟩]
    | .ok key, some "up" => [⟨key, false⟩]
    | .ok _, some _ => []

/-- What a value is shown as, if there is one. -/
def valueLines : Except EngineError (Option Value) → List String
  | .ok (some value) => [value.text]
  | _ => []

variable {m : Type → Type} [Monad m] [FileAccess m] [Terminal m]

/-- Writes lines to the output. -/
def writeLines : List String → m Unit
  | [] => return ()
  | line :: rest => do
    Terminal.write (line ++ "\n")
    writeLines rest

/-- Writes out what a call wrote to its console. -/
def writeConsole (console : Lines) : m Unit :=
  writeLines console.lines.toList

/-- The exit code for a result. -/
def codeOf {ε α : Type} : Except ε α → Nat
  | .ok _ => 0
  | .error _ => 1

/-- Runs what the settings name once. -/
def runOnce (fuel : Nat) (settings : Settings) : m (Option Nat) := do
  match ← (Loader.new settings hostCatalog).runOnce fuel ({} : Lines) with
  | none => return none
  | some (result, console) =>
    writeConsole console
    return some (codeOf result)

/-- Shows the value of a source text, and gives the engine after it. -/
def evaluateOn (fuel : Nat) (engine : Engine) (code : String) : m (Option (Engine × Nat)) := do
  match engine.evaluate hostCatalog fuel code ({} : Lines) with
  | none => return none
  | some reply =>
    writeConsole reply.host
    writeLines (valueLines reply.result)
    return some (reply.engine, codeOf reply.result)

/-- Shows the value of every line of input, of at most `lines` lines. Blank lines are passed over. -/
def repl (fuel : Nat) : Nat → Engine → m (Option Nat)
  | 0, _ => return none
  | lines + 1, engine => do
    Terminal.write "> "
    match ← Terminal.readLine with
    | .ended => return some 0
    | .broken => return some 1
    | .line text =>
      if (trim text).isEmpty then repl fuel lines engine
      else
        match ← evaluateOn fuel engine text with
        | none => return none
        | some (engine, _) => repl fuel lines engine

/-- Feeds events to a loader and writes out what its runs show. -/
def feed (fuel : Nat) (loader : Loader Lines) : List KeyEvent → m (Option (Loader Lines))
  | [] => return some loader
  | event :: rest => do
    match ← loader.handle fuel event ({} : Lines) with
    | (_, some none) => return none
    | (loader, some (some (_, console))) =>
      writeConsole console
      feed fuel loader rest
    | (loader, none) => feed fuel loader rest

/-- Runs on every press of the key of which the input tells, in at most `lines` lines. -/
def listen (fuel : Nat) : Nat → Loader Lines → m (Option Nat)
  | 0, _ => return none
  | lines + 1, loader => do
    match ← Terminal.readLine with
    | .ended => return some 0
    | .broken => return some 1
    | .line text =>
      match ← feed fuel loader (keyEvents text) with
      | none => return none
      | some loader => listen fuel lines loader

/-- Carries out a command. -/
def execute (fuel : Nat) (settings : Settings) : Command → m (Option Nat)
  | .run file =>
    runOnce fuel { settings with filePath := file.getD settings.filePath, projectDir := none }
  | .project dir => runOnce fuel { settings with projectDir := some dir }
  | .eval code => do return (← evaluateOn fuel (evaluator settings) code).map (·.2)
  | .repl => repl fuel fuel (evaluator settings)
  | .listen => listen fuel fuel (.new settings hostCatalog)
  | .modules => do
    writeLines (hostCatalog.modules.map fun loaded => moduleLine settings loaded.module)
    return some 0
  | .settings => do
    writeLines [settings.toText]
    return some 0

/-- The settings in a directory. Where there are none and none can be made, the defaults do. -/
def configured (dir : String) : m Settings := do
  match ← Settings.loadOrInit dir with
  | .ok settings => return settings
  | .error _ => return {}

/-- The exit code when the arguments lead to no command. -/
def stopped : ArgumentStop → m Nat
  | .usage => return 2
  | .help => do
    writeLines helpLines
    return 0
  | .version => do
    writeLines [versionLine]
    return 0

/-- Runs the program. `environment` is the directory of settings that the environment names. -/
def run (fuel : Nat) (arguments : List String) (environment : Option String) :
    m (Option Nat) := do
  match Arguments.parse arguments with
  | .error stop => return some (← stopped stop)
  | .ok ⟨options, command⟩ =>
    let settings ← configured (configDir options environment)
    execute fuel (overridden settings options) command

end CommandLine

end ScriptHost
