import ScriptHost.Engine.Basic
import ScriptHost.Standard.Catalog
import ScriptHost.Trigger
/-!
# Settings

What a loader goes by from one start to the next.
-/

set_option autoImplicit false

namespace ScriptHost

/-- The preferences of a loader. -/
structure Settings where
  version : Nat := 1
  /-- The name of the key that starts a run. -/
  scriptKey : String := Key.preset.name
  /-- The script that is run unless there is a project. -/
  filePath : String := "Mod.ms"
  /-- The directory of the project that is run, if any. -/
  projectDir : Option String := none
  /-- The modules that a script may refer to. -/
  allowedModules : List String := defaultAllowedModules
  warningLevel : Nat := 2
  /-- The most instructions that a run may carry out. -/
  instructionLimit : Option Nat := none
deriving DecidableEq, Repr, Inhabited

namespace Settings

/-- The key that starts a run. A bad name stands for the preset key. -/
def key (settings : Settings) : Key :=
  Key.resolve (some settings.scriptKey)

/-- How engines work. -/
def engineConfig (settings : Settings) : EngineConfig where
  warningLevel := settings.warningLevel
  instructionLimit := settings.instructionLimit

end Settings

end ScriptHost
