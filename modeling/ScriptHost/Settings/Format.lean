import ScriptHost.Json.Printer
import ScriptHost.Json.Reader
import ScriptHost.Settings.Basic
/-!
# Settings as text

Settings are written as a JSON object with a member for each field. When they are read, members may
be missing, and members with other names are passed over; the values may also stand in an array, in
the order of the fields.
-/

set_option autoImplicit false

namespace ScriptHost

/-- A field of the settings. -/
inductive SettingsField where
  | version
  | scriptKey
  | filePath
  | projectDir
  | allowedModules
  | warningLevel
  | instructionLimit
deriving DecidableEq, Repr

namespace SettingsField

/-- The fields in order. -/
def all : List SettingsField :=
  [version, scriptKey, filePath, projectDir, allowedModules, warningLevel, instructionLimit]

/-- The name of a field. -/
def name : SettingsField → String
  | version => "version"
  | scriptKey => "script_key"
  | filePath => "file_path"
  | projectDir => "project_dir"
  | allowedModules => "allowed_modules"
  | warningLevel => "warning_level"
  | instructionLimit => "instruction_limit"

/-- The field with a name. -/
def ofName? (name : String) : Option SettingsField :=
  all.find? (·.name == name)

end SettingsField

namespace Settings

/-- A number as a value. -/
def numberJson (n : Nat) : Json :=
  .number (toString n)

/-- A text as a value. -/
def textJson (text : String) : Json :=
  .string (some text)

/-- The value of a field. -/
def get (settings : Settings) : SettingsField → Json
  | .version => numberJson settings.version
  | .scriptKey => textJson settings.scriptKey
  | .filePath => textJson settings.filePath
  | .projectDir => (settings.projectDir.map textJson).getD .null
  | .allowedModules => .array (settings.allowedModules.map textJson)
  | .warningLevel => numberJson settings.warningLevel
  | .instructionLimit => (settings.instructionLimit.map numberJson).getD .null

/-- The settings with a field read from a value, if it can be. -/
def set? (settings : Settings) (field : SettingsField) (json : Json) : Option Settings :=
  match field with
  | .version => (json.naturalBelow? UInt32.size).map fun version => { settings with version }
  | .scriptKey => json.text?.map fun scriptKey => { settings with scriptKey }
  | .filePath => json.text?.map fun filePath => { settings with filePath }
  | .projectDir => (json.optional? Json.text?).map fun projectDir => { settings with projectDir }
  | .allowedModules => json.texts?.map fun allowedModules => { settings with allowedModules }
  | .warningLevel => (json.naturalBelow? 256).map fun warningLevel => { settings with warningLevel }
  | .instructionLimit =>
    (json.optional? (Json.naturalBelow? UInt64.size)).map fun instructionLimit =>
      { settings with instructionLimit }

/-- The settings as a value. -/
def toJson (settings : Settings) : Json :=
  .object (SettingsField.all.map fun field => (some field.name, settings.get field))

/-- Reads members into settings. `seen` holds the fields that have been read. -/
def readMembers (settings : Settings) (seen : List SettingsField) :
    List (Option String × Json) → Option Settings
  | [] => some settings
  | (none, _) :: _ => none
  | (some key, json) :: rest =>
    match SettingsField.ofName? key with
    | none => readMembers settings seen rest
    | some field =>
      if field ∈ seen then none
      else
        match settings.set? field json with
        | some settings => readMembers settings (field :: seen) rest
        | none => none

/-- Reads values into fields, one each. -/
def readValues (settings : Settings) : List SettingsField → List Json → Option Settings
  | _, [] => some settings
  | [], _ :: _ => none
  | field :: fields, json :: rest =>
    match settings.set? field json with
    | some settings => readValues settings fields rest
    | none => none

/-- The settings that a value tells. What it does not tell is as it is by default. -/
def ofJson? : Json → Option Settings
  | .object members => readMembers {} [] members
  | .array items => readValues {} SettingsField.all items
  | _ => none

/-- The settings as text. -/
def toText (settings : Settings) : String :=
  settings.toJson.pretty

/-- The settings that a text tells. -/
def ofText? (text : String) : Option Settings :=
  (Json.read? text).bind ofJson?

end Settings

end ScriptHost
