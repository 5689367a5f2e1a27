import ScriptHost.Disk.Access
import ScriptHost.Settings.Format
/-!
# The settings file

Settings are kept in a file of a directory for them. A file that is there is never overwritten when
settings are loaded, whatever it holds; when settings are saved, the new file takes the place of the
old one in one go.
-/

set_option autoImplicit false

namespace ScriptHost

/-- The name of the settings file. -/
def settingsFile : String := "settings.json"

/-- The directory for settings unless another is named. -/
def defaultConfigDir : String := ".script-loader"

/-- The path of the settings file in a directory. -/
def settingsPath (dir : String) : String :=
  Path.join dir settingsFile

/-- Why settings could not be saved. -/
structure SettingsError where
  cause : DiskError
deriving DecidableEq, Repr

/-- The text of the error. -/
def SettingsError.message (e : SettingsError) : String :=
  s!"I/O error: {e.cause.message}"

namespace Settings

variable {m : Type → Type} [Monad m] [FileAccess m]

/-- A failure of a file operation as a failure of what it was part of. -/
def wrap (result : Except DiskError Unit) : Except SettingsError Unit :=
  result.mapError SettingsError.mk

/-- The settings in a directory, if there is a file that tells any. -/
def load (dir : String) : m (Option Settings) := do
  if ← FileAccess.leads (settingsPath dir) then
    match ← FileAccess.readText (settingsPath dir) with
    | .ok text => return ofText? text
    | .error _ => return none
  else return none

/-- Saves settings in a directory, which is made if it is missing. -/
def save (dir : String) (settings : Settings) : m (Except SettingsError Unit) := do
  match ← FileAccess.createDirs dir with
  | .error e => return wrap (.error e)
  | .ok () =>
    return wrap (← FileAccess.replaceFile (settingsPath dir) settings.toText.toUTF8)

/-- The settings in a directory. Where there is no file yet, one is made. -/
def loadOrInit (dir : String) : m (Except SettingsError Settings) := do
  match ← load dir with
  | some settings => return .ok settings
  | none =>
    if ← FileAccess.leads (settingsPath dir) then return .ok {}
    else
      match ← save dir {} with
      | .ok () => return .ok {}
      | .error e => return .error e

end Settings

end ScriptHost
