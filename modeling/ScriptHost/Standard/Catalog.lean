import ScriptHost.Console
import ScriptHost.Host.Catalog
import ScriptHost.Standard.Mathematics
import ScriptHost.Standard.Placeholder
import ScriptHost.Standard.Texts
/-!
# The standard modules

The modules that every host offers: `Console` and `Debug` write lines, `Math` and `Text` compute,
and `Host` tells who the host is.
-/

set_option autoImplicit false

namespace ScriptHost

/-- What the host calls itself. -/
def hostName : String := "script_loader"

/-- The version of the host. -/
def hostVersion : String := "0.1.0"

/-- The modules that a script may refer to unless the settings say otherwise. -/
def defaultAllowedModules : List String := ["Console", "Math", "Text", "Debug", "Host"]

namespace Standard

variable {σ : Type}

/-- The texts of values with blanks between them. -/
def joined (args : List Value) : String :=
  " ".intercalate (args.map Value.text)

/-- Writes the arguments on one line. -/
def print [HasConsole σ] (args : List Value) (state : σ) : HostOutcome × σ :=
  (.value .null, writeLine (joined args) state)

/-- Writes a message with its placeholders filled in. -/
def debugLog [HasConsole σ] (args : List Value) (state : σ) : HostOutcome × σ :=
  match args with
  | [] => (.failure "Debug.log expects a message", state)
  | .null :: _ => (.value .null, writeLine "NULL" state)
  | message :: rest =>
    (.value .null, writeLine (Placeholder.format message.text rest) state)

/-- The module `Console`. -/
def consoleModule [HasConsole σ] : HostModule σ :=
  ({ name := "Console" } : HostModule σ)
    |>.withFunction "print" (.atLeast 0) print
    |>.withFunction "log" (.atLeast 0) print

/-- The module `Debug`. -/
def debugModule [HasConsole σ] : HostModule σ :=
  ({ name := "Debug" } : HostModule σ).withFunction "log" (.atLeast 1) debugLog

/-- The module `Host`. -/
def hostModule : HostModule σ :=
  ({ name := "Host" } : HostModule σ)
    |>.withPure "name" (.exact 0) (fun _ => .value (.str hostName))
    |>.withPure "version" (.exact 0) fun _ => .value (.str hostVersion)

/-- A catalog with the standard modules loaded. -/
def catalog [HasConsole σ] : Catalog σ :=
  ({} : Catalog σ)
    |>.load consoleModule
    |>.load debugModule
    |>.load Mathematics.module
    |>.load Texts.module
    |>.load hostModule

end Standard

end ScriptHost
