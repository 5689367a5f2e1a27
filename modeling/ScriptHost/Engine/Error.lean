import ScriptHost.Disk.Error
import ScriptHost.Machine.Fault
import ScriptHost.Project.Manifest
import ScriptHost.Value.Basic
/-!
# How a call of an engine can fail

A call fails before anything is built, while it is built, or while it runs.
-/

set_option autoImplicit false

namespace ScriptHost

/-- Where an engine takes its sources from. -/
inductive SourceMode where
  /-- The caller hands them over. -/
  | inline
  /-- They are listed in the manifest of a directory. -/
  | project (dir : String)
deriving DecidableEq, Repr, Inhabited

/-- The word for a mode. -/
def SourceMode.name : SourceMode → String
  | .inline => "inline"
  | .project _ => "project"

/-- What an engine can be asked to do. -/
inductive EngineOperation where
  | runSource
  | run
  | evaluate
deriving DecidableEq, Repr

/-- The word for an operation. -/
def EngineOperation.name : EngineOperation → String
  | .runSource => "run_source"
  | .run => "run"
  | .evaluate => "evaluate"

/-- What stopped a script that was running, or made its value useless to the caller. -/
inductive RunFailure where
  | fault (error : RuntimeError)
  | conversion (mismatch : KindMismatch)
deriving DecidableEq, Repr

/-- The text of a failure. -/
def RunFailure.text : RunFailure → String
  | .fault error => error.text
  | .conversion mismatch => s!"result conversion failed: {mismatch.message}"

/-- Why a call failed. -/
inductive EngineError where
  | noManifest (dir : String)
  | invalidManifest (path : String) (problem : ManifestProblem)
  /-- The manifest lists a file that is not there. -/
  | missingSource (path : String)
  | unreadable (path : String) (cause : DiskError)
  /-- The sources hold so many errors. -/
  | notBuilt (errors : Nat)
  | missingEntry (name : String)
  | stopped (failure : RunFailure)
  /-- The mode does not offer the operation. -/
  | wrongMode (operation : EngineOperation) (mode : SourceMode)
deriving DecidableEq, Repr

namespace EngineError

/-- The text of an error. -/
def message : EngineError → String
  | .noManifest dir => s!"no *.msproj manifest found in {dir}"
  | .invalidManifest path problem => s!"invalid project manifest {path}: {problem.message}"
  | .missingSource path => s!"source file listed in the manifest does not exist: {path}"
  | .unreadable path cause => s!"cannot read {path}: {cause.message}"
  | .notBuilt errors => s!"compilation failed with {errors} error(s)"
  | .missingEntry name => s!"entry point {name} is not declared"
  | .stopped failure => s!"script faulted: {failure.text}"
  | .wrongMode operation mode => s!"{operation.name} is not available in {mode.name} mode"

/-- The line that reports an error. Errors in the sources have been reported one by one. -/
def reportLine? : EngineError → Option String
  | .notBuilt _ => none
  | e => some s!"error: {e.message}"

end EngineError

end ScriptHost
