import ScriptHost.Source.Span
/-!
# Diagnostics

What the passes over a source text have to say about it. Each message carries its severity, the
stage that found it and the place it is about; `Diagnostic.line` is the form in which it is shown.
-/

set_option autoImplicit false

namespace ScriptHost

/-- The pass that a diagnostic comes from. -/
inductive Stage where
  | lexer
  | parser
  | resolve
  | compiler
deriving DecidableEq, Repr, Inhabited

/-- The word for a stage. -/
def Stage.name : Stage → String
  | .lexer => "lexer"
  | .parser => "parser"
  | .resolve => "resolve"
  | .compiler => "compiler"

/-- Whether a diagnostic stops the unit from being built. -/
inductive Severity where
  | warning
  | error
deriving DecidableEq, Repr, Inhabited

/-- The word for a severity. -/
def Severity.name : Severity → String
  | .warning => "warning"
  | .error => "error"

/-- A message about a place in a source text. -/
structure Diagnostic where
  severity : Severity
  stage : Stage
  message : String
  span : Span
deriving DecidableEq, Repr, Inhabited

namespace Diagnostic

/-- An error found by `stage`. -/
def error (stage : Stage) (message : String) (span : Span) : Diagnostic :=
  ⟨.error, stage, message, span⟩

/-- A warning. Only name resolution warns. -/
def warning (message : String) (span : Span) : Diagnostic :=
  ⟨.warning, .resolve, message, span⟩

/-- Whether the diagnostic is an error. -/
def isError (d : Diagnostic) : Bool :=
  d.severity == .error

/-- The diagnostic on one line: where, how bad, found by whom, and what. -/
def line (d : Diagnostic) (origin source : String) : String :=
  let (row, column) := lineColumn source d.span.start
  s!"{origin}({row},{column}): {d.severity.name}[{d.stage.name}]: {d.message}"

end Diagnostic

end ScriptHost
