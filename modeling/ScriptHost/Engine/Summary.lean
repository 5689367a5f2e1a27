import ScriptHost.Engine.Basic
import ScriptHost.Text.Quoted
/-!
# The summary of an engine

One line that tells an engine's mode, its state and the modules it may refer to, for people who look
for errors in a host.
-/

set_option autoImplicit false

namespace ScriptHost

/-- The word for a state in a summary. -/
def UnitState.title : UnitState → String
  | .idle => "Idle"
  | .compiling => "Compiling"
  | .ready => "Ready"
  | .failed => "Failed"
  | .invoking => "Invoking"
  | .invoked => "Invoked"
  | .invokeFailed => "InvokeFailed"

/-- A mode in a summary. -/
def SourceMode.summary : SourceMode → String
  | .inline => "Inline"
  | .project dir => "Project(ProjectSource \x7b dir: " ++ Quoted.quote true dir ++ " \x7d)"

/-- The engine on one line. -/
def Engine.summary (engine : Engine) : String :=
  let modules := ", ".intercalate (engine.allowedModules.map (Quoted.quote false))
  "ScriptEngine \x7b mode: " ++ engine.mode.summary ++ ", state: " ++ engine.state.title ++
    ", modules: [" ++ modules ++ "], .. \x7d"

end ScriptHost
